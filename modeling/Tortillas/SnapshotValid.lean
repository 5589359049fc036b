/-
**What is saved can be restored.**

A snapshot is checked before it is restored, and a torrent should never save one that fails its own
checks.  Most of what is checked holds of the running actor in every run.  Two things can break.  A
late block of a piece that is complete is taken for a new one, and begins a row of received blocks
for the complete piece.  And the metadata of a magnet link is accepted by the hash of its bytes,
while a snapshot is checked by the hash of the dictionary as the program writes it.

Main definitions:

* `TorrentActor.Saveable` — what the checks ask of the actor;
* `SnapshotRestorable` — the torrent can be saved, and what is saved passes the checks;
* `SpoilsSnapshot` — the inputs after which it does not.

Main results:

* `TorrentActor.snapshotRestorable_iff` — **what the checks ask of a snapshot is what they ask of
  the actor**;
* `TorrentActor.saveable_step_iff` — one step keeps it exactly if it does not spoil it;
* `snapshot_restorable_unless_spoiled` — **in every run without such inputs the torrent can be saved
  and restored.**
-/

import Tortillas.Completion

set_option relaxedAutoImplicit false
set_option autoImplicit false

namespace Tortillas

variable {H : Type}

/-! ### The length of a piece -/

/-- The snapshot's computation of the length of a piece agrees with the scheduler's. -/
theorem snapshotPieceLength_eq {info : Info H} (h : info.Consistent) {index : ℕ}
    (hindex : index < info.pieceCount) :
    snapshotPieceLength info index = .ok (concretePieceLength info.pieceCount
      info.pieceLength.toNat info.totalLength index) := by
  have hpos := h.pos
  have hcount := h.count
  have htotal := info.totalLength_le
  have hleft := sub_mul_divCeil_pred (a := info.totalLength) hpos (by omega)
  rw [← hcount] at hleft
  unfold snapshotPieceLength concretePieceLength lastPieceLength
  simp only
  rw [if_neg (Nat.pos_iff_ne_zero.1 hpos)]
  split
  · rw [saturatingMul_of_le (hleft.1.trans htotal), hleft.2]
  · rfl

/-! ### What is saved -/

namespace TorrentActor

variable [DecidableEq H] {c : Codec H} {s t : TorrentActor H}

/-- A row of received blocks belongs to a piece of the metadata that is not complete, and has a bit
for each of its blocks. -/
structure RowFits (info : Option (Info H)) (bitfield : List Bool) (index : ℕ) (row : List Bool) :
    Prop where
  incomplete : bitfield.getD index false = false
  piece : ∃ dict, info = some dict ∧ index < dict.pieceCount ∧
    (dict.Consistent → row.length = divCeil (concretePieceLength dict.pieceCount
      dict.pieceLength.toNat dict.totalLength index) blockSize)

/-- All rows of received blocks fit. -/
def RowsFit (s : TorrentActor H) : Prop :=
  ∀ index row, s.pieceScheduler.completedBlocks.get? index = some row →
    RowFits s.infoDict s.bitfield index row

/-- What the checks on a snapshot ask of the actor. -/
structure Saveable (c : Codec H) (s : TorrentActor H) : Prop where
  infoHash : s.metainfo.infoHash c = some s.infoHash
  noDuplicate : ∀ info, s.metainfo = .torrent info → s.resolvedMagnetInfo = none
  resolved : ∀ info, s.resolvedMagnetInfo = some info → info.hash c = s.infoHash
  rows : s.RowsFit

omit [DecidableEq H] in
theorem mem_blockMap_iff {entry : PieceBlockSnapshot} :
    entry ∈ s.blockMap ↔
      s.pieceScheduler.completedBlocks.get? entry.pieceIndex = some entry.blocks := by
  rw [blockMap, (List.mergeSort_perm _ _).mem_iff, List.mem_map, ← HashMap.mem_toList_iff]
  refine ⟨?_, ?_⟩
  · rintro ⟨row, hrow, rfl⟩
    exact hrow
  · intro h
    exact ⟨_, h, rfl⟩

omit [DecidableEq H] in
theorem nodup_blockMap (s : TorrentActor H) :
    (s.blockMap.map PieceBlockSnapshot.pieceIndex).Nodup := by
  rw [blockMap, ((List.mergeSort_perm _ _).map _).nodup_iff, List.map_map]
  exact HashMap.nodup_toList_keys _

end TorrentActor

/-- The torrent can be saved, and what is saved passes the checks. -/
def SnapshotRestorable [DecidableEq H] (c : Codec H) (s : TorrentActor H) : Prop :=
  ∃ snap, s.snapshot = .ok snap ∧ snap.validate c = .ok ()

/-- The torrent uses the file manager, which has been told its output folder. -/
def HasOutputPath (s : TorrentActor H) : Prop :=
  ∃ manager path, s.pieceManager = .default manager ∧ manager.path = some path

/-- The metadata, if known, is consistent. -/
def InfoConsistent (s : TorrentActor H) : Prop :=
  ∀ info, s.infoDict = some info → info.Consistent

namespace TorrentActor

variable [DecidableEq H] {c : Codec H} {s t : TorrentActor H}

/-- **What the checks ask of a snapshot is what they ask of the actor.** -/
theorem snapshotRestorable_iff (hfits : s.BitfieldFits) (hpath : HasOutputPath s)
    (hinfo : InfoConsistent s) : SnapshotRestorable c s ↔ s.Saveable c := by
  obtain ⟨manager, path, hmanager, hpath⟩ := hpath
  have hresolved : ∀ snap, s.snapshot = .ok snap → snap.resolvedInfo = s.infoDict := by
    intro snap hsnap
    rw [snapshot, hmanager] at hsnap
    cases hsnap
    rfl
  refine ⟨?_, ?_⟩
  · rintro ⟨snap, hsnap, hvalid⟩
    have hv := (TorrentSnapshot.validate_ok_iff c snap).1 hvalid
    have hdict := hresolved snap hsnap
    rw [snapshot, hmanager] at hsnap
    cases hsnap
    refine ⟨hv.infoHash, hv.noDuplicate, hv.resolved, ?_⟩
    intro index row hrow
    obtain ⟨hrange, hbit, dict, length, hd, hlen, hblocks⟩ :=
      hv.blocks ⟨index, row⟩ (mem_blockMap_iff.2 hrow)
    rw [hdict] at hd hrange
    rw [hd] at hrange
    refine ⟨hbit, dict, hd, hrange, ?_⟩
    intro hcons
    rw [snapshotPieceLength_eq hcons hrange] at hlen
    cases hlen
    exact hblocks
  · intro h
    refine ⟨_, by rw [snapshot, hmanager], (TorrentSnapshot.validate_ok_iff c _).2 ?_⟩
    refine ⟨rfl, h.infoHash, h.noDuplicate, ?_, h.resolved, hfits, ?_, nodup_blockMap s⟩
    · exact Option.isSome_iff_exists.2 ⟨path, hpath⟩
    · intro entry hentry
      obtain ⟨hbit, dict, hd, hrange, hlen⟩ := h.rows _ _ (mem_blockMap_iff.1 hentry)
      refine ⟨?_, hbit, dict, _, hd, snapshotPieceLength_eq (hinfo dict hd) hrange,
        hlen (hinfo dict hd)⟩
      change entry.pieceIndex < (s.infoDict.map Info.pieceCount).getD 0
      rw [hd]
      exact hrange

/-! ### What keeps the rows -/

omit [DecidableEq H] in
theorem SameBits.rowsFit (h : SameBits s t) (hs : s.RowsFit) : t.RowsFit := by
  intro index row hrow
  rw [h.completedBlocks] at hrow
  rw [h.infoDict, h.bitfield]
  exact hs index row hrow

omit [DecidableEq H] in
theorem SameBits.saveable (h : SameBits s t) (hs : s.Saveable c) : t.Saveable c := by
  refine ⟨?_, ?_, ?_, h.rowsFit hs.rows⟩
  · rw [h.metainfo, h.infoHash]
    exact hs.infoHash
  · rw [h.metainfo, h.resolvedMagnetInfo]
    exact hs.noDuplicate
  · rw [h.resolvedMagnetInfo, h.infoHash]
    exact hs.resolved

omit [DecidableEq H] in
/-- The row of a piece after one of its blocks has been recorded. -/
theorem completedBlocks_recordBlock (s : TorrentActor H) (index offset n : ℕ) :
    (s.recordBlock index offset n).pieceScheduler.completedBlocks =
      s.pieceScheduler.completedBlocks.insert index
        (((s.pieceScheduler.completedBlocks.get? index).getD (List.replicate n false)).set
          (offset / blockSize) true) := by
  change (s.pieceScheduler.markBlockComplete index (offset / blockSize) n).1.completedBlocks = _
  rw [PieceScheduler.markBlockComplete_fst]
  exact (PieceScheduler.sameProgress_takeBack _ index (offset / blockSize)).completedBlocks

omit [DecidableEq H] in
/-- What passes the checks on its range has as many blocks as its piece. -/
theorem blocks_of_checkBlock {dict : Info H} {index offset length n : ℕ}
    (h : checkBlock dict index offset length = some n) :
    index < dict.pieceCount ∧ n = divCeil (concretePieceLength dict.pieceCount
      dict.pieceLength.toNat dict.totalLength index) blockSize := by
  unfold checkBlock at h
  simp only at h
  split at h
  · cases h
  · rename_i hindex
    refine ⟨Nat.lt_of_not_le hindex, ?_⟩
    repeat' split at h
    all_goals cases h
    rfl

/-! ### Blocks -/

/-- A block that passes the checks and is written, and is not the last of its piece. -/
structure RecordsPart (c : Codec H) (s : TorrentActor H) (index offset : ℕ) (block : Bytes)
    (env : BlockEnv) (dict : Info H) (n : ℕ) : Prop where
  accepts : s.Accepts index offset block.length dict n
  written : (s.writeBlockToStorage c index offset block env.write).2 = true
  partly : ((s.writeBlockToStorage c index offset block env.write).1.recordBlock index offset
    n).pieceScheduler.isPieceComplete index = false

omit [DecidableEq H] in
theorem Accepts.unique {index offset length n n' : ℕ} {dict dict' : Info H}
    (h : s.Accepts index offset length dict n) (h' : s.Accepts index offset length dict' n') :
    dict' = dict ∧ n' = n := by
  cases h.info.symm.trans h'.info
  cases h.check.symm.trans h'.check
  exact ⟨rfl, rfl⟩

/-- A block does not touch the source of the torrent. -/
theorem HandlesBlock.source {index offset : ℕ} {block : Bytes} {env : BlockEnv}
    (h : HandlesBlock c s index offset block env t) :
    t.metainfo = s.metainfo ∧ t.infoHash = s.infoHash ∧
      t.resolvedMagnetInfo = s.resolvedMagnetInfo := by
  obtain ⟨u, hsame, hu⟩ := h.frame
  rw [hu] at hsame
  exact ⟨hsame.metainfo, hsame.infoHash, hsame.resolvedMagnetInfo⟩

/-- Nor the output folder. -/
theorem HandlesBlock.hasOutputPath {index offset : ℕ} {block : Bytes} {env : BlockEnv}
    (h : HandlesBlock c s index offset block env t) (hs : HasOutputPath s) : HasOutputPath t := by
  obtain ⟨u, hsame, hu⟩ := h.frame
  obtain ⟨manager, path, hmanager, hpath⟩ := hs
  have hu' : u.pieceManager = .default manager := by
    rw [hu]
    exact hmanager
  rcases hsame.pieceManager with heq | ⟨dict, manager', -, hm', -, heq⟩
  · exact ⟨manager, path, heq.trans hu', hpath⟩
  · cases hu'.symm.trans hm'
    exact ⟨_, path, heq, hpath⟩

omit [DecidableEq H] in
theorem Saveable.rows_iff (hs : s.Saveable c) (hmeta : t.metainfo = s.metainfo)
    (hhash : t.infoHash = s.infoHash) (hres : t.resolvedMagnetInfo = s.resolvedMagnetInfo) :
    t.Saveable c ↔ t.RowsFit := by
  refine ⟨fun h => h.rows, fun h => ⟨?_, ?_, ?_, h⟩⟩
  · rw [hmeta, hhash]
    exact hs.infoHash
  · rw [hmeta, hres]
    exact hs.noDuplicate
  · rw [hhash, hres]
    exact hs.resolved

/-! ### Rows under a block -/

/-- Every row has a property that depends on the metadata and on the bit of its piece. -/
def RowsAll (P : Option (Info H) → Bool → ℕ → List Bool → Prop) (s : TorrentActor H) : Prop :=
  ∀ index row, s.pieceScheduler.completedBlocks.get? index = some row →
    P s.infoDict (s.bitfield.getD index false) index row

section RowsAll

variable {P : Option (Info H) → Bool → ℕ → List Bool → Prop}

omit [DecidableEq H] in
theorem SameBits.rowsAll (h : SameBits s t) (hs : s.RowsAll P) : t.RowsAll P := by
  intro index row hrow
  rw [h.completedBlocks] at hrow
  rw [h.infoDict, h.bitfield]
  exact hs index row hrow

omit [DecidableEq H] in
/-- Rows may be dropped, and then the bit of the piece may be set. -/
theorem RowsAll.erase (hs : s.RowsAll P) (index : ℕ) (hinfo : t.infoDict = s.infoDict)
    (hbits : ∀ i, i ≠ index → t.bitfield.getD i false = s.bitfield.getD i false)
    (hrows : ∀ i row, t.pieceScheduler.completedBlocks.get? i = some row →
      i ≠ index ∧ s.pieceScheduler.completedBlocks.get? i = some row) : t.RowsAll P := by
  intro i row hrow
  obtain ⟨hne, hold⟩ := hrows i row hrow
  rw [hinfo, hbits i hne]
  exact hs i row hold

omit [DecidableEq H] in
/-- Writing a block to the storage touches no row. -/
theorem RowsAll.writeBlockToStorage (hs : s.RowsAll P) (c : Codec H) (index offset : ℕ)
    (block : Bytes) (env : WriteEnv) :
    (s.writeBlockToStorage c index offset block env).1.RowsAll P := by
  rw [writeBlockToStorage_eq]
  exact fun i row hrow => hs i row hrow

/-- Nor does validating a piece. -/
theorem RowsAll.validateAndCommitPiece (hs : s.RowsAll P) (c : Codec H) (index : ℕ)
    (env : BlockEnv) : (s.validateAndCommitPiece c index env).1.RowsAll P := by
  rw [validateAndCommitPiece_eq]
  exact fun i row hrow => hs i row hrow

omit [DecidableEq H] in
/-- The row of a piece is dropped when its last block has been recorded. -/
theorem RowsAll.removePieceBlocks (hs : s.RowsAll P) (index offset n : ℕ) :
    ((s.recordBlock index offset n).mapScheduler (·.removePieceBlocks index)).RowsAll P := by
  refine hs.erase index rfl (fun i _ => rfl) ?_
  intro i row hrow
  obtain ⟨hne, hold⟩ := HashMap.get?_of_get?_erase hrow
  rw [completedBlocks_recordBlock, HashMap.get?_insert_of_ne hne] at hold
  exact ⟨hne, hold⟩

omit [DecidableEq H] in
/-- With the bit of a piece its row goes. -/
theorem RowsAll.completePiece (hs : s.RowsAll P) (index : ℕ) :
    (s.completePiece index).RowsAll P := by
  refine hs.erase index rfl ?_ ?_
  · intro i hne
    change (s.bitfield.set index true).getD i false = _
    rw [List.getD_eq_getElem?_getD, List.getD_eq_getElem?_getD,
      List.getElem?_set_ne (Ne.symm hne)]
  · intro i row hrow
    exact HashMap.get?_of_get?_erase hrow

/-- The row of a piece after one of its blocks has been received. -/
def rowWith (s : TorrentActor H) (index offset n : ℕ) : List Bool :=
  ((s.pieceScheduler.completedBlocks.get? index).getD (List.replicate n false)).set
    (offset / blockSize) true

/-- **What is left of a piece of which a block has been recorded, if it was not the last one.** -/
theorem RecordsPart.spec {index offset n : ℕ} {block : Bytes} {env : BlockEnv} {dict : Info H}
    (h : s.RecordsPart c index offset block env dict n) (p : PeerId) :
    (s.handleIncomingPiece c p index offset block env).infoDict = s.infoDict ∧
    (s.handleIncomingPiece c p index offset block env).bitfield = s.bitfield ∧
    (s.handleIncomingPiece c p index offset block env).pieceScheduler.completedBlocks.get? index =
      some (s.rowWith index offset n) := by
  have hwrite := writeBlockToStorage_eq c index offset block env.write s
  cases handlesBlock c s p index offset block env with
  | ignored _ hna => exact absurd ⟨dict, n, h.accepts⟩ hna
  | unwritten _ hw _ => cases hw.symm.trans h.written
  | @recorded dict' n' u ha hw hu hrow hsame =>
      obtain ⟨rfl, rfl⟩ := h.accepts.unique ha
      subst hu
      refine ⟨hsame.infoDict.trans ?_, hsame.bitfield.trans ?_, ?_⟩
      · rw [hwrite]
        rfl
      · rw [hwrite]
        rfl
      · rw [hsame.completedBlocks, completedBlocks_recordBlock, HashMap.get?_insert_self, hwrite]
        rfl
  | @uncommitted dict' n' u v ha _ hu hrow _ _ _ =>
      obtain ⟨rfl, rfl⟩ := h.accepts.unique ha
      subst hu
      cases hrow.symm.trans h.partly
  | @committed dict' n' u v ha _ hu hrow _ _ _ =>
      obtain ⟨rfl, rfl⟩ := h.accepts.unique ha
      subst hu
      cases hrow.symm.trans h.partly

/-- **A block keeps what rows are like, if the row it leaves is like it.** -/
theorem RowsAll.handleIncomingPiece (hs : s.RowsAll P) (p : PeerId) (index offset : ℕ)
    (block : Bytes) (env : BlockEnv)
    (hpart : ∀ dict n, s.RecordsPart c index offset block env dict n →
      P s.infoDict (s.bitfield.getD index false) index (s.rowWith index offset n)) :
    (s.handleIncomingPiece c p index offset block env).RowsAll P := by
  have hwrite := writeBlockToStorage_eq c index offset block env.write s
  have hs' := hs.writeBlockToStorage c index offset block env.write
  cases handlesBlock c s p index offset block env with
  | ignored h hna => exact h.toBits.rowsAll hs
  | unwritten _ hw h => exact h.toBits.rowsAll hs'
  | @recorded dict n u ha hw hu hrow h =>
      subst hu
      refine h.toBits.rowsAll ?_
      intro i row hget
      rw [completedBlocks_recordBlock, HashMap.get?_insert] at hget
      split at hget
      · rename_i hi
        subst hi
        cases hget
        have hnew := hpart dict n ⟨ha, hw, hrow⟩
        rw [hwrite]
        exact hnew
      · exact hs' i row hget
  | @uncommitted dict n u v ha _ hu hrow hv hc h =>
      subst hu
      have hv' : v.RowsAll P := by
        rw [hv]
        exact fun i row hrow => hs'.removePieceBlocks index offset n i row hrow
      exact h.toBits.rowsAll (hv'.validateAndCommitPiece c index env)
  | @committed dict n u v ha _ hu hrow hv hc h =>
      subst hu
      have hv' : v.RowsAll P := by
        rw [hv]
        exact fun i row hrow => hs'.removePieceBlocks index offset n i row hrow
      exact h.toBits.rowsAll ((hv'.validateAndCommitPiece c index env).completePiece index)

end RowsAll

omit [DecidableEq H] in
/-- A row fits by the metadata and by the bit of its piece. -/
theorem rowsFit_iff : s.RowsFit ↔ s.RowsAll fun info bit index row => bit = false ∧
    ∃ dict, info = some dict ∧ index < dict.pieceCount ∧ (dict.Consistent →
      row.length = divCeil (concretePieceLength dict.pieceCount dict.pieceLength.toNat
        dict.totalLength index) blockSize) := by
  refine ⟨fun h i row hrow => ?_, fun h i row hrow => ?_⟩
  · exact ⟨(h i row hrow).incomplete, (h i row hrow).piece⟩
  · exact ⟨(h i row hrow).1, (h i row hrow).2⟩

omit [DecidableEq H] in
/-- A block of an incomplete piece leaves a row that fits. -/
theorem RowsFit.rowWith (hs : s.RowsFit) {index offset length n : ℕ} {dict : Info H}
    (ha : s.Accepts index offset length dict n) (hbit : s.bitfield.getD index false = false) :
    RowFits s.infoDict s.bitfield index (s.rowWith index offset n) := by
  obtain ⟨hrange, hn⟩ := blocks_of_checkBlock ha.check
  refine ⟨hbit, dict, ha.info, hrange, ?_⟩
  intro hcons
  rw [TorrentActor.rowWith, List.length_set]
  cases hold : s.pieceScheduler.completedBlocks.get? index with
  | none =>
      rw [Option.getD_none, List.length_replicate]
      exact hn
  | some old =>
      obtain ⟨-, dict', hdict', -, hlen⟩ := hs index old hold
      cases ha.info.symm.trans hdict'
      exact hlen hcons

/-- **A block keeps the rows in order exactly if it does not begin a row for a complete piece.** -/
theorem rowsFit_handleIncomingPiece_iff (hs : s.RowsFit) (p : PeerId) (index offset : ℕ)
    (block : Bytes) (env : BlockEnv) :
    (s.handleIncomingPiece c p index offset block env).RowsFit ↔
      ¬ (s.bitfield.getD index false = true ∧
        ∃ dict n, s.RecordsPart c index offset block env dict n) := by
  refine ⟨?_, ?_⟩
  · rintro hfit ⟨hbit, dict, n, hpart⟩
    -- The row of the complete piece is there.
    obtain ⟨-, hbits, hrow⟩ := hpart.spec p
    have hclear := (hfit index _ hrow).incomplete
    rw [hbits, hbit] at hclear
    cases hclear
  · intro hno
    refine rowsFit_iff.2 ((rowsFit_iff.1 hs).handleIncomingPiece p index offset block env ?_)
    intro dict n hpart
    have hbit : s.bitfield.getD index false = false := by
      rw [← Bool.not_eq_true]
      exact fun hbit => hno ⟨hbit, dict, n, hpart⟩
    obtain ⟨hclear, hpiece⟩ := hs.rowWith hpart.accepts hbit
    exact ⟨hclear, hpiece⟩

/-! ### Metadata and restoring -/

/-- **Resolved metadata keeps the torrent saveable exactly if the dictionary as the program writes
it has the hash that was asked for.** -/
theorem saveable_infoBytes_iff (hs : s.Saveable c) (bytes : Bytes) (env : BroadcastEnv) :
    (s.infoBytes c bytes env).Saveable c ↔
      ¬ (s.infoDict = none ∧ c.sha1 bytes = s.infoHash ∧
        ∃ info, c.fromBytes bytes = some info ∧ info.hash c ≠ s.infoHash) := by
  by_cases hcond : s.infoDict = none ∧ c.sha1 bytes = s.infoHash ∧
      ∃ info, c.fromBytes bytes = some info
  · obtain ⟨hnone, hhash, info, hinfo⟩ := hcond
    have heq : s.infoBytes c bytes env = (s.resolveMetadata info).broadcastToPeers
        (.haveInfoDict (List.replicate info.pieceCount false)) env := by
      simp [TorrentActor.infoBytes, hnone, hhash, hinfo]
    rw [heq]
    refine ⟨?_, ?_⟩
    · rintro h ⟨-, -, info', hinfo', hne⟩
      cases hinfo.symm.trans hinfo'
      exact hne (h.resolved info rfl)
    · intro hno
      refine ⟨hs.infoHash, ?_, ?_, ?_⟩
      · intro dict hmeta
        change s.metainfo = .torrent dict at hmeta
        rw [infoDict, hmeta] at hnone
        cases hnone
      · intro info' hres
        change some info = some info' at hres
        cases hres
        by_contra hne
        exact hno ⟨hnone, hhash, info, hinfo, hne⟩
      · -- Without metadata there are no rows.
        intro index row hrow
        obtain ⟨-, dict, hdict, -⟩ := hs.rows index row hrow
        cases hnone.symm.trans hdict
  · have hsame : s.infoBytes c bytes env = s := by
      rcases infoBytes_cases c bytes env s with heq | ⟨info, hnone, hhash, hinfo, -⟩
      · exact heq
      · exact absurd ⟨hnone, hhash, info, hinfo⟩ hcond
    rw [hsame]
    refine ⟨?_, fun _ => hs⟩
    rintro - ⟨hnone, hhash, info, hinfo, -⟩
    exact hcond ⟨hnone, hhash, info, hinfo⟩

/-- A row of a restored scheduler is a row of the snapshot. -/
theorem mem_of_get?_foldl_restorePieceBlocks {entries : List PieceBlockSnapshot}
    {p : PieceScheduler} {index : ℕ} {row : List Bool}
    (h : (entries.foldl (fun p entry => p.restorePieceBlocks entry.pieceIndex entry.blocks)
      p).completedBlocks.get? index = some row) :
    ⟨index, row⟩ ∈ entries ∨ p.completedBlocks.get? index = some row := by
  induction entries generalizing p with
  | nil => exact Or.inr h
  | cons entry entries ih =>
      rcases ih h with hmem | hget
      · exact Or.inl (List.mem_cons_of_mem _ hmem)
      · change (p.completedBlocks.insert entry.pieceIndex entry.blocks).get? index = some row at hget
        rw [HashMap.get?_insert] at hget
        split at hget
        · rename_i hindex
          cases hget
          subst hindex
          exact Or.inl (List.mem_cons_self ..)
        · exact Or.inr hget

omit [DecidableEq H] in
/-- A row of the snapshot is a row of the restored scheduler, if the pieces of the rows differ. -/
theorem get?_foldl_restorePieceBlocks_of_mem {entries : List PieceBlockSnapshot}
    (hnodup : (entries.map PieceBlockSnapshot.pieceIndex).Nodup) {entry : PieceBlockSnapshot}
    (hmem : entry ∈ entries) (p : PieceScheduler) :
    (entries.foldl (fun p entry => p.restorePieceBlocks entry.pieceIndex entry.blocks)
      p).completedBlocks.get? entry.pieceIndex = some entry.blocks := by
  induction entries generalizing p with
  | nil => cases hmem
  | cons first entries ih =>
      rw [List.map_cons, List.nodup_cons] at hnodup
      rcases List.mem_cons.1 hmem with rfl | hmem
      · -- No later row replaces it.
        have hkeep : ∀ (rows : List PieceBlockSnapshot) (q : PieceScheduler),
            entry.pieceIndex ∉ rows.map PieceBlockSnapshot.pieceIndex →
            q.completedBlocks.get? entry.pieceIndex = some entry.blocks →
            (rows.foldl (fun p entry => p.restorePieceBlocks entry.pieceIndex entry.blocks)
              q).completedBlocks.get? entry.pieceIndex = some entry.blocks := by
          intro rows
          induction rows with
          | nil => exact fun q _ hq => hq
          | cons row rows ih =>
              intro q hnot hq
              rw [List.map_cons, List.mem_cons, not_or] at hnot
              refine ih _ hnot.2 ?_
              exact (HashMap.get?_insert_of_ne hnot.1).trans hq
        exact hkeep entries _ hnodup.1 (HashMap.get?_insert_self _ _ _)
      · exact ih hnodup.2 hmem _

omit [DecidableEq H] in
/-- **A restored torrent can be saved again.** -/
theorem Saveable.restoreSnapshot (hs : s.Saveable c) {snap : TorrentSnapshot H}
    (hv : snap.IsValid c) (hown : snap.metainfo = s.metainfo) :
    (s.restoreSnapshot snap).Saveable c := by
  have hinfo := infoDict_restoreSnapshot snap hown
  have hhash : snap.infoHash = s.infoHash := by
    have h := hv.infoHash
    rw [hown, hs.infoHash] at h
    exact (Option.some.inj h).symm
  refine ⟨hs.infoHash, ?_, ?_, ?_⟩
  · intro info hmeta
    exact hv.noDuplicate info (hown.trans hmeta)
  · intro info hres
    exact (hv.resolved info hres).trans hhash
  · intro index row hrow
    have hmem : (⟨index, row⟩ : PieceBlockSnapshot) ∈ snap.blockMap := by
      rcases mem_of_get?_foldl_restorePieceBlocks hrow with hmem | hget
      · exact hmem
      · rw [markComplete_completedBlocks _ _ _ rfl] at hget
        cases hget
    obtain ⟨hrange, hbit, dict, length, hd, hlen, hblocks⟩ := hv.blocks _ hmem
    rw [hd] at hrange
    refine ⟨hbit, dict, hinfo.trans hd, hrange, ?_⟩
    intro hcons
    rw [snapshotPieceLength_eq hcons hrange] at hlen
    cases hlen
    exact hblocks

end TorrentActor

/-! ### Runs -/

section Runs

variable [DecidableEq H] {c : Codec H}

/-- The inputs after which a saved snapshot fails its checks: a block of a complete piece that does
not fill its row, and metadata that hashes to something else when the program writes it. -/
def SpoilsSnapshot (s : TorrentActor H) (i : TorrentActor.Input c) : Prop :=
  let s' := s.next i.check
  match i.message with
  | .incomingPiece _ index offset block env => s'.bitfield.getD index false = true ∧
      ∃ dict n, s'.RecordsPart c index offset block env dict n
  | .infoBytes bytes _ => s'.infoDict = none ∧ c.sha1 bytes = s'.infoHash ∧
      ∃ info, c.fromBytes bytes = some info ∧ info.hash c ≠ s'.infoHash
  | _ => False

namespace TorrentActor

variable {s : TorrentActor H}

/-- **One step keeps the torrent saveable exactly if it does not spoil the snapshot.** -/
theorem saveable_step_iff (hs : s.Saveable c) {i : Input c} (hown : s.RestoresOwn i.message) :
    (s.step i).Saveable c ↔ ¬ SpoilsSnapshot s i := by
  have hnext := sameData_next i.check s
  have hs' : (s.next i.check).Saveable c := hnext.toBits.saveable hs
  unfold TorrentActor.step SpoilsSnapshot
  cases hm : i.message with
  | incomingPiece p index offset block env =>
      obtain ⟨hmeta, hhash, hres⟩ :=
        (handlesBlock c (s.next i.check) p index offset block env).source
      exact (hs'.rows_iff hmeta hhash hres).trans
        (rowsFit_handleIncomingPiece_iff hs'.rows p index offset block env)
  | infoBytes bytes env => exact saveable_infoBytes_iff hs' bytes env
  | restoreSnapshot v =>
      rw [hm] at hown
      have hmeta : v.snapshot.metainfo = (s.next i.check).metainfo := by
        rw [hnext.metainfo]
        exact hown
      exact ⟨fun _ => id, fun _ => hs'.restoreSnapshot v.valid hmeta⟩
  | _ =>
      refine ⟨fun _ => id, fun _ => (sameBits_handle _ ?_).saveable hs'⟩
      exact trivial

omit [DecidableEq H] in
theorem saveable_onStart {args : Args H} {disk : FileStore Path}
    (h : onStart c args disk = some s) : s.Saveable c := by
  unfold onStart at h
  obtain ⟨hash, hhash, rfl⟩ := Option.map_eq_some_iff.1 h
  refine ⟨hhash, fun _ _ => rfl, (fun _ h => nomatch h), ?_⟩
  intro index row hrow
  cases hrow

end TorrentActor

/-- **In every run whose inputs do not spoil the snapshot, a torrent with the file manager, an output
folder and consistent metadata can be saved and what is saved can be restored; and the next input
keeps it so exactly if it does not spoil the snapshot.** -/
theorem snapshot_restorable_unless_spoiled {s : TorrentActor H}
    (h : (torrentSystem c).Reach (fun s i => ¬ SpoilsSnapshot s i) s) :
    (HasOutputPath s → InfoConsistent s → SnapshotRestorable c s) ∧
    ∀ i : TorrentActor.Input c, s.RestoresOwn i.message → HasOutputPath (s.step i) →
      InfoConsistent (s.step i) → (SnapshotRestorable c (s.step i) ↔ ¬ SpoilsSnapshot s i) := by
  have hs : s.Saveable c := by
    refine h.invariant ?_ ?_
    · rintro s ⟨args, disk, hstart⟩
      exact TorrentActor.saveable_onStart hstart
    · rintro s i t hs hG ⟨hown, rfl⟩
      exact (TorrentActor.saveable_step_iff hs hown).2 hG
  have hbits := TorrentActor.bitsInv_of_reach h
  refine ⟨?_, ?_⟩
  · intro hpath hinfo
    exact (TorrentActor.snapshotRestorable_iff hbits.fits hpath hinfo).2 hs
  · intro i hown hpath hinfo
    exact (TorrentActor.snapshotRestorable_iff (hbits.step hown).fits hpath hinfo).trans
      (TorrentActor.saveable_step_iff hs hown)

/-- The metadata of a magnet link is found, the only block is written and completes the piece, and then
it comes again, with another content. -/
def Sample.lateAgain : List (TorrentMessage Sample.codec) :=
  [.infoBytes Sample.infoBytes Sample.broadcastEnv, .peerConnected (some Sample.peer) 0,
    .setSufficientPeers 1 Sample.startEnv, .incomingPiece Sample.peer 0 0 [7] Sample.blockEnv,
    .incomingPiece Sample.peer 0 0 [8] Sample.blockEnv]

/-- A torrent whose only piece has two blocks. -/
def Sample.twoBlocks : Info Bytes :=
  { Sample.info with
    pieceLength := 16385
    pieces := [List.replicate 16385 7]
    file := .single 16385 none }

/-- The second block of the piece is asked for and comes, the first does not. -/
def Sample.halfFetched : List (TorrentMessage Sample.codec) :=
  Sample.asking ++ [.incomingPiece Sample.peer 0 16384 [7] Sample.blockEnv]

theorem snapshot_restorable_sample :
    (SnapshotRestorable Sample.codec (Sample.run Sample.fromMagnet Sample.lateAgain) ∧
      (Sample.run Sample.fromMagnet Sample.lateAgain).bitfield = [true]) ∧
    SnapshotRestorable Sample.codec (Sample.run (Sample.fromInfo Sample.twoBlocks .inFile) Sample.halfFetched) ∧
      (Sample.run (Sample.fromInfo Sample.twoBlocks .inFile) Sample.halfFetched).pieceScheduler.completedBlocks.get? 0 =
        some [false, true] := by
  refine ⟨⟨(snapshot_restorable_unless_spoiled (Sample.reach_along (.init Sample.init_fromMagnet) ?_)).1 ?_ ?_,
    by decide +kernel⟩, (snapshot_restorable_unless_spoiled (Sample.reach_along
      (.init (Sample.init_fromInfo Sample.twoBlocks .inFile)) ?_)).1 ?_ ?_, by decide +kernel⟩
  · refine ⟨⟨?_, trivial⟩, ⟨id, trivial⟩, ⟨id, trivial⟩, ⟨?_, trivial⟩, ⟨?_, trivial⟩, trivial⟩
    · rintro ⟨-, -, info, hinfo, hhash⟩
      cases (show some Sample.info = some info from hinfo)
      exact hhash rfl
    · rintro ⟨hbit, -⟩
      exact absurd hbit (by decide +kernel)
    · -- the row of the late block is full at once
      rintro ⟨-, dict, n, hpart⟩
      have haccepts : ((Sample.run Sample.fromMagnet (Sample.lateAgain.take 4)).next Sample.startEnv).Accepts 0 0 1
          Sample.info 1 := ⟨by decide +kernel, by decide +kernel, by decide +kernel⟩
      obtain ⟨rfl, rfl⟩ := haccepts.unique hpart.accepts
      exact absurd hpart.partly (by decide +kernel)
  · exact ⟨⟨some [['o']], some Sample.info⟩, [['o']], rfl, rfl⟩
  · intro info hinfo
    have hdict : (Sample.run Sample.fromMagnet Sample.lateAgain).infoDict = some Sample.info := by decide +kernel
    cases hdict.symm.trans hinfo
    exact ⟨by decide, by decide⟩
  · refine ⟨⟨id, trivial⟩, ⟨id, trivial⟩, ⟨id, trivial⟩, ⟨?_, trivial⟩, trivial⟩
    rintro ⟨hbit, -⟩
    exact absurd hbit (by decide +kernel)
  · exact ⟨⟨some [['o']], some Sample.twoBlocks⟩, [['o']], rfl, rfl⟩
  · intro info hinfo
    cases (show some Sample.twoBlocks = some info from hinfo)
    exact ⟨by decide, by decide⟩

/-- The torrent as it was saved when its piece was complete. -/
def Sample.completed : ValidatedTorrentSnapshot Sample.codec where
  snapshot :=
    { version := torrentSnapshotVersion
      infoHash := Sample.encode Sample.twoBlocks
      state := .seeding
      autoStart := true
      sufficientPeers := 6
      outputPath := some [['o']]
      metainfo := .torrent Sample.twoBlocks
      pieceStorage := .inFile
      resolvedMagnetInfo := none
      bitfield := [true]
      blockMap := [] }
  valid := ⟨rfl, rfl, fun _ _ => rfl, rfl, fun _ h => (nomatch h), rfl, fun _ h => (nomatch h),
    List.nodup_nil⟩

def Sample.restored : TorrentActor Bytes :=
  (Sample.fromInfo Sample.twoBlocks .inFile).step (Sample.input (.restoreSnapshot Sample.completed))

/-- The first block of the piece. -/
def Sample.lateBlock : TorrentMessage Sample.codec :=
  .incomingPiece Sample.peer 0 0 (List.replicate 16384 7) Sample.blockEnv

/-- A late block of the complete piece: the torrent saves a snapshot that cannot be restored. -/
theorem late_block_spoils_snapshot :
    ∃ s, (torrentSystem Sample.codec).Reach (fun _ _ => True) s ∧ HasOutputPath s ∧
      InfoConsistent s ∧ ¬ SnapshotRestorable Sample.codec s := by
  have hrestored : (torrentSystem Sample.codec).Reach (fun _ _ => True) Sample.restored :=
    Sample.reach_step (.restoreSnapshot Sample.completed)
      (.init (Sample.init_fromInfo Sample.twoBlocks .inFile)) trivial rfl
  have hlate : (torrentSystem Sample.codec).Reach (fun _ _ => True)
      (Sample.restored.step (Sample.input Sample.lateBlock)) :=
    Sample.reach_step Sample.lateBlock hrestored trivial trivial
  have hsaveable : Sample.restored.Saveable Sample.codec := by
    obtain ⟨args, disk, hstart⟩ := Sample.init_fromInfo Sample.twoBlocks .inFile
    exact (TorrentActor.saveable_step_iff (TorrentActor.saveable_onStart hstart)
      (i := Sample.input (.restoreSnapshot Sample.completed)) rfl).2 id
  have hspoils : SpoilsSnapshot Sample.restored (Sample.input Sample.lateBlock) := by
    refine ⟨?_, Sample.twoBlocks, 2, ⟨?_, ?_, ?_⟩, ?_, ?_⟩
    · rfl
    · rfl
    · rw [List.length_replicate]
      decide
    · rfl
    · decide +kernel
    · decide +kernel
  have hhandles := TorrentActor.handlesBlock Sample.codec (Sample.restored.next Sample.startEnv)
    Sample.peer 0 0 (List.replicate 16384 7) Sample.blockEnv
  have hpath : HasOutputPath (Sample.restored.step (Sample.input Sample.lateBlock)) :=
    hhandles.hasOutputPath ⟨_, _, rfl, rfl⟩
  have hinfo : InfoConsistent (Sample.restored.step (Sample.input Sample.lateBlock)) := by
    intro info hinfo
    have hmeta : (Sample.restored.step (Sample.input Sample.lateBlock)).metainfo
        = .torrent Sample.twoBlocks := hhandles.source.1
    rw [TorrentActor.infoDict, hmeta] at hinfo
    cases hinfo
    exact ⟨by decide, by decide⟩
  refine ⟨_, hlate, hpath, hinfo, ?_⟩
  rw [TorrentActor.snapshotRestorable_iff (TorrentActor.bitsInv_of_reach hlate).fits hpath hinfo,
    TorrentActor.saveable_step_iff hsaveable (i := Sample.input Sample.lateBlock) trivial]
  exact not_not_intro hspoils

end Runs

end Tortillas
