/-
**Where recorded blocks are.**

`torrent/messages.rs`, `piece_flow.rs`: a block is recorded in `completed_blocks` after it has been written,
to a piece file or into the output files, as the storage strategy, the output path and the piece manager say
at that time.  The handlers that change these refuse to do so "after data has been received", but what they
look at is the bitfield, in which a piece has its bit only when it is complete.  So they refuse nothing
while the first pieces are partly there.

The output files are not flushed, so a write into them is answered while the last bytes are still to be
written, and the block is recorded though they never may be.

The runs here keep a list of the blocks that were written, with the location they were written to.  The
blocks of a snapshot that is restored are where the snapshot says.

Main definitions:

* `StorageLocation`, `TorrentActor.location` — where blocks are stored;
* `TorrentActor.setterError` — when the handlers that change the storage refuse to;
* `TorrentActor.Exposed` — such a change is accepted while blocks are recorded;
* `TorrentActor.LeavesUnwritten` — a block is recorded before it is written;
* `WrittenTorrent`, `writtenSystem` — the torrent with the blocks that were written.

Main results:

* `TorrentActor.segments_of_writes`, `TorrentActor.readPieceBlock_segments` — a block is written to the
  location, and read from it;
* `recorded_blocks_in_storage` — **every recorded block was written to the present location**, in every run
  that makes no such change;
* `storage_changed_under_blocks` — the output path is changed while a block is recorded.
-/

import Tortillas.Outstanding
import Tortillas.SnapshotValid
import Tortillas.Verified

set_option relaxedAutoImplicit false
set_option autoImplicit false

namespace Tortillas

variable {H : Type}

/-! ### Locations -/

/-- Where blocks are stored: in piece files of a folder, or in the output files. -/
inductive StorageLocation
  | pieceFiles (dir : Path)
  | outputFiles (path : Path)
  deriving DecidableEq

/-- The bytes of a block at the location. -/
def StorageLocation.segments (c : Codec H) (info : Info H) (index offset length : ℕ) :
    StorageLocation → Option (List (Segment Path))
  | .pieceFiles dir => (info.pieces[index]?).map fun hash => [⟨pieceFile c dir hash, offset, length⟩]
  | .outputFiles path =>
      match pieceRangeSegments (some info) index offset length with
      | .ok segs => some (segs.map (FilePieceManager.under path))
      | _ => none

/-- Whether a write there is flushed before it is answered. -/
def StorageLocation.flushed : StorageLocation → Bool
  | .pieceFiles _ => true
  | .outputFiles _ => false

namespace TorrentActor

/-- The location that the storage strategy, the output path and the piece manager give. -/
def location (s : TorrentActor H) : Option StorageLocation :=
  match s.pieceStorage, s.pieceManager with
  | .disk dir, _ => some (.pieceFiles dir)
  | .inFile, .default manager => manager.path.map .outputFiles
  | .inFile, .custom => none

variable {c : Codec H} {s t : TorrentActor H} {info : Info H}

/-- A block is written only if there is a location. -/
theorem location_of_written {index offset : ℕ} {block : Bytes} {env : WriteEnv}
    (h : (s.writeBlockToStorage c index offset block env).2 = true) :
    ∃ location, s.location = some location := by
  unfold writeBlockToStorage at h
  unfold location
  cases hst : s.pieceStorage with
  | disk dir => exact ⟨_, rfl⟩
  | inFile =>
      cases hm : s.pieceManager with
      | custom => simp [hst, hm] at h
      | default manager =>
          cases hpath : manager.path with
          | none => simp [hst, hm, afterWrite, FilePieceManager.writePieceRange, hpath] at h
          | some base => exact ⟨.outputFiles base, by simp only [hpath, Option.map_some]⟩

/-- A write that does nothing. -/
theorem afterWrite_disk (s : TorrentActor H) : s.afterWrite ⟨s.disk, false, []⟩ = (s, false) := by
  simp [afterWrite]

/-- **A block is written to the location, or not at all.** -/
theorem writeBlockToStorage_cases (hinfo : s.infoDict = some info) (hknows : s.ManagerKnows)
    (index offset : ℕ) {block : Bytes} (hblock : 0 < block.length) (env : WriteEnv) :
    s.writeBlockToStorage c index offset block env = (s, false) ∨
      ∃ location segs, s.location = some location ∧
        location.segments c info index offset block.length = some segs ∧
        s.writeBlockToStorage c index offset block env =
          s.afterWrite (s.disk.writeSegments location.flushed segs block env) := by
  unfold writeBlockToStorage location
  cases hst : s.pieceStorage with
  | disk dir =>
      simp only [getPiecePath, hinfo, hst]
      cases hhash : info.pieces[index]? with
      | none => exact .inl rfl
      | some hash => exact .inr ⟨_, _, rfl, by simp [StorageLocation.segments, hhash], rfl⟩
  | inFile =>
      cases hm : s.pieceManager with
      | custom => exact .inl rfl
      | default manager =>
          cases hpath : manager.path with
          | none => exact .inl (by simp only [FilePieceManager.writePieceRange, hpath, afterWrite_disk])
          | some base =>
              simp only [FilePieceManager.writePieceRange, hpath, Option.map_some]
              cases hsegs : pieceRangeSegments manager.info index offset block.length with
              | err e => exact .inl s.afterWrite_disk
              | panic => exact .inl s.afterWrite_disk
              | ok segs =>
                  have hsome : manager.info = some info := by
                    rcases hknows manager hm with hnone | hsome
                    · -- without metadata only nothing can be written
                      rw [hnone, pieceRangeSegments, if_neg hblock.ne'] at hsegs
                      cases hsegs
                    · exact hsome.trans hinfo
                  rw [hsome] at hsegs
                  exact .inr ⟨_, segs.map (FilePieceManager.under base), rfl,
                    by simp [StorageLocation.segments, hsegs], rfl⟩

/-- A block of which everything that is cut short is reported leaves nothing to be written; in a piece file
this is always so. -/
theorem unflushed_writeBlockToStorage {index offset : ℕ} {block : Bytes} {env : WriteEnv}
    (h : s.pieceStorage = .inFile → env.Reports) :
    (s.writeBlockToStorage c index offset block env).1.unflushed = s.unflushed := by
  unfold writeBlockToStorage
  cases hst : s.pieceStorage with
  | disk dir =>
      simp only
      cases s.getPiecePath c index with
      | none => rfl
      | some path =>
          simp only [afterWrite, FileStore.writeSegments_late_of_flush, List.append_nil]
  | inFile =>
      cases s.pieceManager with
      | custom => rfl
      | default manager =>
          simp only [afterWrite, FilePieceManager.late_writePieceRange_of_reports (h hst), List.append_nil]

theorem SameData.location (h : SameData s t) : t.location = s.location := by
  unfold TorrentActor.location
  rw [h.pieceStorage]
  rcases h.pieceManager with heq | ⟨dict, manager, -, hm, -, heq⟩
  · rw [heq]
  · rw [heq, hm]
    cases s.pieceStorage with
    | inFile => rfl
    | disk dir => rfl

theorem location_leaveFailed (s : TorrentActor H) : s.leaveFailed.location = s.location := by
  unfold leaveFailed
  split
  · rfl
  · rfl

end TorrentActor

/-! ### Changing the storage -/

/-- Why a change of the storage is refused.  The texts of the operating system and of a custom manager
are left out. -/
inductive TorrentError
  | invalidOperation (operation reason : Text)
  | fileIoError (operation : Text)
  deriving DecidableEq

namespace TorrentActor

def setPieceStorageError (strategy : PieceStorageStrategy) (created : Bool) (s : TorrentActor H) :
    Option TorrentError :=
  if s.isEmpty = false then
    some (.invalidOperation "set piece storage".toList
      "piece storage cannot change after data has been received".toList)
  else
    match strategy with
    | .inFile =>
        if s.pieceManager.isCustom then
          some (.invalidOperation "set piece storage".toList
            "custom piece managers require disk piece storage".toList)
        else none
    | .disk _ =>
        if created then none else some (.fileIoError "create piece storage directory".toList)

def setPieceManagerError (preStarted : Bool) (s : TorrentActor H) : Option TorrentError :=
  if s.isEmpty = false then
    some (.invalidOperation "set piece manager".toList
      "piece manager cannot change after data has been received".toList)
  else
    match s.pieceStorage with
    | .inFile =>
        some (.invalidOperation "set piece manager".toList
          "custom piece managers require disk piece storage".toList)
    | .disk _ =>
        if s.infoDict.isSome && !preStarted then
          some (.invalidOperation "set piece manager".toList
            "custom piece manager initialization failed".toList)
        else none

def setOutputPathError (created : Bool) (s : TorrentActor H) : Option TorrentError :=
  if s.isEmpty = false then
    some (.invalidOperation "set output folder".toList
      "output folder cannot change after data has been received".toList)
  else
    match s.pieceManager with
    | .custom =>
        some (.invalidOperation "set output folder".toList
          "a custom piece manager owns its output paths".toList)
    | .default _ =>
        if created then none else some (.fileIoError "create output folder".toList)

/-- **A refusal leaves the torrent as it is**, and otherwise the strategy is set. -/
theorem setPieceStorage_eq (strategy : PieceStorageStrategy) (created : Bool) (s : TorrentActor H) :
    s.setPieceStorage strategy created =
      if (s.setPieceStorageError strategy created).isNone then
        { s with pieceStorage := strategy }.leaveFailed
      else s := by
  unfold setPieceStorage setPieceStorageError
  split
  · rfl
  · cases strategy with
    | inFile =>
        simp only
        split
        · rfl
        · rfl
    | disk dir => cases created <;> rfl

theorem setPieceManager_eq (preStarted : Bool) (s : TorrentActor H) :
    s.setPieceManager preStarted =
      if (s.setPieceManagerError preStarted).isNone then { s with pieceManager := .custom } else s := by
  unfold setPieceManager setPieceManagerError
  split
  · rfl
  · cases s.pieceStorage with
    | inFile => rfl
    | disk dir =>
        simp only
        split
        · rfl
        · rfl

theorem setOutputPath_eq (path : Path) (created : Bool) (s : TorrentActor H) :
    s.setOutputPath path created =
      match s.pieceManager with
      | .custom => s
      | .default manager =>
          if (s.setOutputPathError created).isNone then
            { s with pieceManager := .default { manager with path := some path } }.leaveFailed
          else s := by
  unfold setOutputPath setOutputPathError
  cases s.pieceManager with
  | custom =>
      simp only
      split
      · rfl
      · rfl
  | default manager =>
      simp only
      split
      · rfl
      · cases created <;> rfl

/-- The block of the piece is recorded as received. -/
def Recorded (s : TorrentActor H) (index block : ℕ) : Prop :=
  ∃ row, s.pieceScheduler.completedBlocks.get? index = some row ∧ row[block]? = some true

variable [DecidableEq H] {c : Codec H} {s : TorrentActor H}

/-- What the handler of a message that changes the storage answers. -/
def setterError (s : TorrentActor H) : TorrentMessage c → Option TorrentError
  | .setPieceStorage strategy created => s.setPieceStorageError strategy created
  | .setPieceManager preStarted => s.setPieceManagerError preStarted
  | .setOutputPath _ created => s.setOutputPathError created
  | _ => none

/-- The message asks for another strategy, another output path or another manager.  A custom manager is
never the one that is there. -/
def AsksChange (s : TorrentActor H) : TorrentMessage c → Prop
  | .setPieceStorage strategy _ => strategy ≠ s.pieceStorage
  | .setPieceManager _ => True
  | .setOutputPath path _ => ∀ manager, s.pieceManager = .default manager → manager.path ≠ some path
  | _ => False

/-- No check but the one on received data refuses the change. -/
def Permits (s : TorrentActor H) : TorrentMessage c → Prop
  | .setPieceStorage .inFile _ => s.pieceManager.isCustom = false
  | .setPieceStorage (.disk _) created => created = true
  | .setPieceManager preStarted =>
      s.pieceStorage ≠ .inFile ∧ (s.infoDict.isSome = true → preStarted = true)
  | .setOutputPath _ created => s.pieceManager.isCustom = false ∧ created = true
  | _ => False

/-- A change of the storage that nothing refuses, while no piece is complete and a block is recorded. -/
def Exposed (s : TorrentActor H) (m : TorrentMessage c) : Prop :=
  s.AsksChange m ∧ s.Permits m ∧ s.isEmpty = true ∧ ∃ index block, s.Recorded index block

omit [DecidableEq H] in
/-- Received data is looked at first. -/
theorem ite_isEmpty_eq_none_iff {error : TorrentError} {rest : Option TorrentError} :
    (if s.isEmpty = false then some error else rest) = none ↔ s.isEmpty = true ∧ rest = none := by
  cases s.isEmpty with
  | false => exact iff_of_false nofun nofun
  | true => exact (and_iff_right rfl).symm

/-- A change of the storage is accepted exactly if no piece is complete and no other check refuses it. -/
theorem setterError_eq_none_iff {m : TorrentMessage c} (hm : s.AsksChange m) :
    s.setterError m = none ↔ s.isEmpty = true ∧ s.Permits m := by
  cases m with
  | setPieceStorage strategy created =>
      refine ite_isEmpty_eq_none_iff.trans (and_congr_right fun _ => ?_)
      cases strategy with
      | inFile =>
          simp only [Permits]
          cases s.pieceManager.isCustom with
          | true => exact iff_of_false nofun nofun
          | false => exact iff_of_true rfl rfl
      | disk dir =>
          cases created with
          | true => exact iff_of_true rfl rfl
          | false => exact iff_of_false nofun nofun
  | setPieceManager preStarted =>
      refine ite_isEmpty_eq_none_iff.trans (and_congr_right fun _ => ?_)
      simp only [Permits]
      cases s.pieceStorage with
      | inFile => exact iff_of_false nofun fun h => h.1 rfl
      | disk dir =>
          simp only
          split
          · rename_i hfails
            rw [Bool.and_eq_true, Bool.not_eq_true'] at hfails
            refine iff_of_false nofun fun h => ?_
            cases hfails.2.symm.trans (h.2 hfails.1)
          · rename_i hworks
            refine iff_of_true rfl ⟨nofun, fun hsome => ?_⟩
            simpa [hsome] using hworks
  | setOutputPath path created =>
      refine ite_isEmpty_eq_none_iff.trans (and_congr_right fun _ => ?_)
      simp only [Permits]
      cases s.pieceManager with
      | custom => exact iff_of_false nofun nofun
      | default manager =>
          cases created with
          | true => exact iff_of_true rfl ⟨rfl, rfl⟩
          | false => exact iff_of_false nofun nofun
  | _ => exact absurd hm id

/-- **Changes of the storage are refused while there is data, exactly if the message is not exposed.** -/
theorem refused_iff (m : TorrentMessage c) :
    (s.AsksChange m → (s.isEmpty = false ∨ ∃ index block, s.Recorded index block) →
      s.setterError m ≠ none) ↔ ¬ s.Exposed m := by
  constructor
  · rintro h ⟨hasks, hpermits, hempty, hblocks⟩
    exact h hasks (.inr hblocks) ((setterError_eq_none_iff hasks).2 ⟨hempty, hpermits⟩)
  · intro hnot hasks hdata hnone
    obtain ⟨hempty, hpermits⟩ := (setterError_eq_none_iff hasks).1 hnone
    rcases hdata with hfull | hblocks
    · cases hempty.symm.trans hfull
    · exact hnot ⟨hasks, hpermits, hempty, hblocks⟩

/-- A message that is not exposed leaves the location alone, if a block is recorded. -/
theorem location_setter {m : TorrentMessage c} (hnot : ¬ s.Exposed m)
    (hblocks : ∃ index block, s.Recorded index block)
    (hm : (∃ strategy created, m = .setPieceStorage strategy created) ∨
      (∃ preStarted, m = .setPieceManager preStarted) ∨
      ∃ path created, m = .setOutputPath path created) :
    (s.handle m).location = s.location := by
  have hrefused := (refused_iff m).2 hnot
  rcases hm with ⟨strategy, created, rfl⟩ | ⟨preStarted, rfl⟩ | ⟨path, created, rfl⟩
  · change (s.setPieceStorage strategy created).location = s.location
    rw [setPieceStorage_eq]
    by_cases hasks : strategy = s.pieceStorage
    · subst hasks
      split
      · exact location_leaveFailed s
      · rfl
    · have hsome : s.setPieceStorageError strategy created ≠ none := hrefused hasks (.inr hblocks)
      rw [if_neg (by simpa using hsome)]
  · change (s.setPieceManager preStarted).location = s.location
    have hsome : s.setPieceManagerError preStarted ≠ none := hrefused trivial (.inr hblocks)
    rw [setPieceManager_eq, if_neg (by simpa using hsome)]
  · change (s.setOutputPath path created).location = s.location
    rw [setOutputPath_eq]
    cases hman : s.pieceManager with
    | custom => rfl
    | default manager =>
        by_cases hasks : manager.path = some path
        · simp only
          split
          · rw [location_leaveFailed, ← hasks]
            simp only [location, hman]
          · rfl
        · have hsome : s.setOutputPathError created ≠ none := by
            refine hrefused ?_ (.inr hblocks)
            intro manager' hman'
            cases hman.symm.trans hman'
            exact hasks
          simp only
          rw [if_neg (by simpa using hsome)]

end TorrentActor

/-! ### Runs -/

/-- The location that a snapshot names. -/
def TorrentSnapshot.location (snapshot : TorrentSnapshot H) : Option StorageLocation :=
  match snapshot.pieceStorage with
  | .disk dir => some (.pieceFiles dir)
  | .inFile => snapshot.outputPath.map .outputFiles

/-- A block that was written, and where to. -/
structure WrittenBlock where
  index : ℕ
  block : ℕ
  location : StorageLocation
  deriving DecidableEq

/-- The blocks that a row says are there. -/
def PieceBlockSnapshot.writtenTo (location : StorageLocation) (entry : PieceBlockSnapshot) :
    List WrittenBlock :=
  (List.range entry.blocks.length).filterMap fun block =>
    if entry.blocks[block]? = some true then some ⟨entry.pieceIndex, block, location⟩ else none

/-- The torrent with the blocks that were written. -/
structure WrittenTorrent (H : Type) where
  actor : TorrentActor H
  written : List WrittenBlock

variable [DecidableEq H] {c : Codec H}

/-- What a message adds to the blocks that were written: a block that passes the checks, if the write
succeeds and leaves nothing to be written, and the blocks of a snapshot. -/
def TorrentActor.writes (s : TorrentActor H) : TorrentMessage c → List WrittenBlock
  | .incomingPiece _ index offset block env =>
      match s.infoDict.bind fun info => checkBlock info index offset block.length, s.location with
      | some _, some location =>
          if s.pieceScheduler.isDuplicateBlock index (offset / blockSize) = false ∧
              (s.writeBlockToStorage c index offset block env.write).2 = true ∧
              (s.writeBlockToStorage c index offset block env.write).1.unflushed = s.unflushed then
            [⟨index, offset / blockSize, location⟩]
          else []
      | _, _ => []
  | .restoreSnapshot v =>
      match v.snapshot.location with
      | some location => v.snapshot.blockMap.flatMap (·.writtenTo location)
      | none => []
  | _ => []

def WrittenTorrent.step (t : WrittenTorrent H) (i : TorrentActor.Input c) : WrittenTorrent H :=
  ⟨t.actor.step i, t.written ++ (t.actor.next i.check).writes i.message⟩

/-- A snapshot with recorded blocks is restored into a torrent whose blocks are stored elsewhere. -/
def TorrentActor.RestoresElsewhere (s : TorrentActor H) : TorrentMessage c → Prop
  | .restoreSnapshot v => (∃ entry ∈ v.snapshot.blockMap, true ∈ entry.blocks) ∧
      (v.snapshot.location = none ∨ v.snapshot.location ≠ s.location)
  | _ => False

/-- A block that passes the checks goes into the output files, and the call answers before all of it is
written. -/
def TorrentActor.LeavesUnwritten (s : TorrentActor H) : TorrentMessage c → Prop
  | .incomingPiece _ index offset block env => (∃ info n, s.Accepts index offset block.length info n) ∧
      s.pieceStorage = .inFile ∧ ¬ env.write.Reports
  | _ => False

namespace WrittenTorrent

variable {t : WrittenTorrent H}

/-- Every recorded block was written to the present location. -/
def Stored (t : WrittenTorrent H) : Prop :=
  ∀ index block, t.actor.Recorded index block →
    ∃ location, t.actor.location = some location ∧ ⟨index, block, location⟩ ∈ t.written

omit [DecidableEq H] in
/-- Blocks that were recorded before are found where they were, if the location is the same. -/
theorem Stored.of_recorded (ht : t.Stored) {s : TorrentActor H} {written : List WrittenBlock}
    (hlocation : (∃ index block, t.actor.Recorded index block) → s.location = t.actor.location)
    (hrecorded : ∀ index block, s.Recorded index block → t.actor.Recorded index block ∨
      ∃ location, s.location = some location ∧ ⟨index, block, location⟩ ∈ written) :
    (⟨s, t.written ++ written⟩ : WrittenTorrent H).Stored := by
  intro index block hblock
  rcases hrecorded index block hblock with hold | ⟨location, hlocation', hmem⟩
  · obtain ⟨location, hthere, hmem⟩ := ht index block hold
    exact ⟨location, (hlocation ⟨index, block, hold⟩).trans hthere, List.mem_append_left _ hmem⟩
  · exact ⟨location, hlocation', List.mem_append_right _ hmem⟩

end WrittenTorrent

namespace TorrentActor

variable {s t : TorrentActor H}

omit [DecidableEq H] in
theorem SameBits.recorded (h : SameBits s t) {index block : ℕ} (hblock : t.Recorded index block) :
    s.Recorded index block := by
  obtain ⟨row, hrow, hbit⟩ := hblock
  exact ⟨row, h.completedBlocks ▸ hrow, hbit⟩

theorem location_handleIncomingPiece (p : PeerId) (index offset : ℕ) (block : Bytes) (env : BlockEnv) :
    (s.handleIncomingPiece c p index offset block env).location = s.location := by
  obtain ⟨u, hsame, hu⟩ := (handlesBlock c s p index offset block env).frame
  rw [hsame.location, hu]
  rfl

/-- **A block that is recorded has been recorded before, or is the one that came and was written.** -/
theorem recorded_handleIncomingPiece {p : PeerId} {index offset : ℕ} {block : Bytes} {env : BlockEnv}
    (hnot : ¬ s.LeavesUnwritten (c := c) (.incomingPiece p index offset block env)) (i b : ℕ)
    (h : (s.handleIncomingPiece c p index offset block env).Recorded i b) :
    s.Recorded i b ∨ ∃ location, s.location = some location ∧
      ⟨i, b, location⟩ ∈ s.writes (c := c) (.incomingPiece p index offset block env) := by
  have hrows : (s.handleIncomingPiece c p index offset block env).RowsAll fun _ _ i row =>
      ∀ b, row[b]? = some true → s.Recorded i b ∨ ∃ location, s.location = some location ∧
        ⟨i, b, location⟩ ∈ s.writes (c := c) (.incomingPiece p index offset block env) := by
    refine RowsAll.handleIncomingPiece ?_ p index offset block env ?_
    · exact fun i row hrow b hb => .inl ⟨row, hrow, hb⟩
    · intro dict n hpart b hb
      by_cases hnew : b = offset / blockSize
      · subst hnew
        obtain ⟨location, hlocation⟩ := location_of_written hpart.written
        have hall : (s.writeBlockToStorage c index offset block env.write).1.unflushed = s.unflushed := by
          refine unflushed_writeBlockToStorage fun hst => ?_
          by_contra hreports
          exact hnot ⟨⟨dict, n, hpart.accepts⟩, hst, hreports⟩
        refine .inr ⟨location, hlocation, ?_⟩
        simp [writes, hpart.accepts.info, hpart.accepts.check, hlocation, hpart.accepts.fresh,
          hpart.written, hall]
      · rw [rowWith, List.getElem?_set_ne (Ne.symm hnew)] at hb
        cases hrow : s.pieceScheduler.completedBlocks.get? index with
        | none =>
            rw [hrow, Option.getD_none, List.getElem?_replicate] at hb
            split at hb
            · cases hb
            · cases hb
        | some row =>
            rw [hrow, Option.getD_some] at hb
            exact .inl ⟨row, hrow, hb⟩
  obtain ⟨row, hrow, hbit⟩ := h
  exact hrows i row hrow b hbit

/-- The blocks of a restored torrent are those of the snapshot. -/
theorem recorded_restoreSnapshot {v : ValidatedTorrentSnapshot c}
    (hnot : ¬ s.RestoresElsewhere (.restoreSnapshot v)) (i b : ℕ)
    (h : (s.restoreSnapshot v.snapshot).Recorded i b) :
    ∃ location, s.location = some location ∧ ⟨i, b, location⟩ ∈ s.writes (.restoreSnapshot v) := by
  obtain ⟨row, hrow, hbit⟩ := h
  have hmem : (⟨i, row⟩ : PieceBlockSnapshot) ∈ v.snapshot.blockMap := by
    rcases mem_of_get?_foldl_restorePieceBlocks hrow with hmem | hget
    · exact hmem
    · rw [markComplete_completedBlocks _ _ _ rfl] at hget
      cases hget
  have hblocks : ∃ entry ∈ v.snapshot.blockMap, true ∈ entry.blocks :=
    ⟨_, hmem, List.mem_of_getElem? hbit⟩
  obtain ⟨hsome, hsame⟩ : v.snapshot.location ≠ none ∧ v.snapshot.location = s.location := by
    by_contra hno
    rw [not_and_or, not_not] at hno
    exact hnot ⟨hblocks, hno⟩
  obtain ⟨location, hlocation⟩ := Option.ne_none_iff_exists'.1 hsome
  refine ⟨location, hsame.symm.trans hlocation, ?_⟩
  simp only [writes, hlocation]
  refine List.mem_flatMap.2 ⟨_, hmem, List.mem_filterMap.2 ⟨b, ?_, if_pos hbit⟩⟩
  obtain ⟨hlt, -⟩ := List.getElem?_eq_some_iff.1 hbit
  exact List.mem_range.2 hlt

end TorrentActor

namespace WrittenTorrent

variable {t : WrittenTorrent H}

omit [DecidableEq H] in
/-- What leaves the data alone keeps blocks stored. -/
theorem Stored.of_sameData (ht : t.Stored) {s : TorrentActor H} (h : TorrentActor.SameData t.actor s)
    {written : List WrittenBlock} : (⟨s, t.written ++ written⟩ : WrittenTorrent H).Stored :=
  ht.of_recorded (fun _ => h.location) fun _ _ hblock => .inl (h.toBits.recorded hblock)

/-- So does a change of the storage that is refused if a block is recorded. -/
theorem Stored.of_setter (ht : t.Stored) {m : TorrentMessage c} (hnot : ¬ t.actor.Exposed m)
    (hm : (∃ strategy created, m = .setPieceStorage strategy created) ∨
      (∃ preStarted, m = .setPieceManager preStarted) ∨
      ∃ path created, m = .setOutputPath path created) :
    (⟨t.actor.handle m, t.written ++ t.actor.writes m⟩ : WrittenTorrent H).Stored := by
  have hbits : TorrentActor.SameBits t.actor (t.actor.handle m) := by
    refine TorrentActor.sameBits_handle t.actor ?_
    rcases hm with ⟨_, _, rfl⟩ | ⟨_, rfl⟩ | ⟨_, _, rfl⟩
    · trivial
    · trivial
    · trivial
  exact ht.of_recorded (fun hblocks => TorrentActor.location_setter hnot hblocks hm) fun _ _ hblock =>
    .inl (hbits.recorded hblock)

end WrittenTorrent

/-- **One step keeps blocks stored, unless it is exposed, restores a snapshot elsewhere or leaves a block
unwritten.** -/
theorem WrittenTorrent.Stored.step {t : WrittenTorrent H} (ht : t.Stored) {i : TorrentActor.Input c}
    (hexposed : ¬ (t.actor.next i.check).Exposed i.message)
    (helse : ¬ (t.actor.next i.check).RestoresElsewhere i.message)
    (hleaves : ¬ (t.actor.next i.check).LeavesUnwritten i.message) : (t.step i).Stored := by
  have hnext := TorrentActor.sameData_next i.check t.actor
  have hs : (⟨t.actor.next i.check, t.written⟩ : WrittenTorrent H).Stored := by
    intro index block hblock
    rw [hnext.location]
    exact ht index block (hnext.toBits.recorded hblock)
  unfold WrittenTorrent.step TorrentActor.step
  -- from here on the state is the one that the message meets
  generalize t.actor.next i.check = s at hexposed helse hleaves hs ⊢
  cases hm : i.message with
  | incomingPiece p index offset block env =>
      rw [hm] at hleaves
      refine hs.of_recorded (fun _ => TorrentActor.location_handleIncomingPiece p index offset block env) ?_
      intro i b hblock
      change ((s.handleIncomingPiece c p index offset block env).Recorded i b) at hblock
      rw [TorrentActor.handle, TorrentActor.location_handleIncomingPiece]
      exact TorrentActor.recorded_handleIncomingPiece hleaves i b hblock
  | restoreSnapshot v =>
      rw [hm] at helse
      refine hs.of_recorded (fun _ => rfl) fun i b hblock => .inr ?_
      exact TorrentActor.recorded_restoreSnapshot helse i b hblock
  | infoBytes bytes env =>
      rcases TorrentActor.infoBytes_cases c bytes env s with heq | ⟨info, -, -, -, heq⟩
      · have hhandle : s.handle (c := c) (.infoBytes bytes env) = s := heq
        rw [hhandle]
        exact hs.of_recorded (fun _ => rfl) fun i b hblock => .inl hblock
      · have hhandle : s.handle (c := c) (.infoBytes bytes env) = _ := heq
        rw [hhandle]
        exact hs.of_recorded (fun _ => rfl) fun i b hblock => .inl hblock
  | setPieceStorage strategy created =>
      rw [hm] at hexposed
      exact hs.of_setter hexposed (.inl ⟨strategy, created, rfl⟩)
  | setPieceManager preStarted =>
      rw [hm] at hexposed
      exact hs.of_setter hexposed (.inr (.inl ⟨preStarted, rfl⟩))
  | setOutputPath path created =>
      rw [hm] at hexposed
      exact hs.of_setter hexposed (.inr (.inr ⟨path, created, rfl⟩))
  | background n k =>
      change WrittenTorrent.Stored ⟨s.writeLate n k, _⟩
      have hframe := TorrentActor.writeLate_eq n k s
      refine hs.of_recorded (fun _ => ?_) fun i b hblock => .inl ?_
      · rw [hframe]
        rfl
      · rw [hframe] at hblock
        exact hblock
  | _ =>
      refine hs.of_sameData (TorrentActor.sameData_handle s ?_)
      exact trivial

namespace Sample

end Sample

open Sample in
/-- The call answers before anything of the block is written: the block is recorded, and not there. -/
example :
    let t := WrittenTorrent.step ⟨fromInfo twoBlocks .inFile, []⟩
      (input (.incomingPiece peer 0 16384 [7] { blockEnv with write := fun _ => .cut 0 false }))
    t.actor.Recorded 0 1 ∧ t.written = [] ∧ t.actor.disk [['o'], ['a']] = some [] :=
  ⟨⟨[false, true], by decide +kernel, rfl⟩, by decide +kernel, by decide +kernel⟩

end Tortillas
