/-
**Where the blocks are right, no piece is refused.**

A block is written before anything is known of it; only the hash of a whole piece tells whether its blocks were right,
and a piece that fails is thrown away with all of its blocks.  Peers that answer with the content never bring this
about: whatever the order of the blocks, however often a block comes again, in the middle of a piece or after the piece
is complete, however many writes are cut short or fail, and whenever the storage is configured or snapshots are
restored: every piece whose last block comes is taken, unless the files themselves fail or a part of it is still to be
written in the background.

The obvious invariant, that a complete piece is left alone, does not hold: a block that comes late is written over a
complete piece.  What carries the proof is that a write leaves every byte alone that it agrees with, and so does what
is left of it.

Main definitions:

* `TorrentActor.Backed` — everything that the torrent says it has is there;
* `TorrentActor.Faithful`, `faithfulSystem` — the runs in which only the content comes.

Main results:

* `TorrentActor.HasByte.writeBlockToStorage` — **a block of the content takes no byte of the content away**;
* `TorrentActor.Backed.step` — every such step keeps the torrent backed;
* `content_never_refused` — **no piece of the content is refused**, and what is complete is read as the content.
-/

import Tortillas.HeldBytes
import Tortillas.ProgressAccounting

set_option relaxedAutoImplicit false
set_option autoImplicit false

namespace Tortillas

variable {H : Type}

namespace TorrentActor

variable {c : Codec H} {s t : TorrentActor H} {info : Info H} {pieces : ℕ → Bytes}

/-! ### Everything that is claimed is there -/

/-- Everything that the torrent says it has is there: a complete piece is stored, a recorded block is stored or left to
be written, and nothing that is left to be written does harm. -/
structure Backed (c : Codec H) (info : Info H) (pieces : ℕ → Bytes) (s : TorrentActor H) : Prop where
  own : s.infoDict = none ∨ s.infoDict = some info
  knows : s.ManagerKnows
  trimmed : ∀ dir, s.pieceStorage = .disk dir → TrimmedIn c info s.disk dir
  rows : ∀ index row, s.pieceScheduler.completedBlocks.get? index = some row →
    s.infoDict = some info ∧ divCeil (info.pieceLen index) blockSize ≤ row.length
  complete : ∀ index x, index < info.pieceCount → x < info.pieceLen index → s.bitfield[index]? = some true →
    s.HasByte c info pieces index x
  recorded : ∀ index x, index < info.pieceCount → x < info.pieceLen index → s.Recorded index (x / blockSize) →
    s.HasByte c info pieces index x ∨ s.OwesByte c info index x
  late : ∀ w ∈ s.unflushed, ∀ location, s.location = some location → location.Tolerates c info pieces w

theorem SameData.backed (h : SameData s t) (hs : s.Backed c info pieces) : t.Backed c info pieces := by
  refine ⟨?_, h.managerKnows hs.knows, ?_, ?_, ?_, ?_, ?_⟩
  · rw [h.infoDict]
    exact hs.own
  · rw [h.pieceStorage, h.disk]
    exact hs.trimmed
  · rw [h.completedBlocks, h.infoDict]
    exact hs.rows
  · intro index x hindex hx hbit
    rw [h.bitfield] at hbit
    exact (hs.complete index x hindex hx hbit).of_same h.location h.disk
  · intro index x hindex hx hblock
    exact (hs.recorded index x hindex hx (h.toBits.recorded hblock)).imp (·.of_same h.location h.disk)
      (·.of_same h.location h.unflushed)
  · rw [h.unflushed, h.location]
    exact hs.late

/-- A state that says no more, and in which everything is where it was. -/
theorem Backed.of_less (hs : s.Backed c info pieces) (hinfo : t.infoDict = s.infoDict)
    (hstorage : t.pieceStorage = s.pieceStorage) (hmanager : t.pieceManager = s.pieceManager)
    (hdisk : t.disk = s.disk) (hlate : t.unflushed = s.unflushed) (hbits : t.bitfield = s.bitfield)
    (hrows : ∀ index row, t.pieceScheduler.completedBlocks.get? index = some row →
      s.pieceScheduler.completedBlocks.get? index = some row) : t.Backed c info pieces := by
  have hlocation : t.location = s.location := by
    unfold TorrentActor.location
    rw [hstorage, hmanager]
  refine ⟨?_, ?_, ?_, ?_, ?_, ?_, ?_⟩
  · rw [hinfo]
    exact hs.own
  · intro m hm
    rw [hinfo]
    exact hs.knows m (hmanager ▸ hm)
  · rw [hstorage, hdisk]
    exact hs.trimmed
  · intro index row hrow
    rw [hinfo]
    exact hs.rows index row (hrows index row hrow)
  · intro index x hindex hx hbit
    rw [hbits] at hbit
    exact (hs.complete index x hindex hx hbit).of_same hlocation hdisk
  · rintro index x hindex hx ⟨row, hrow, hbit⟩
    exact (hs.recorded index x hindex hx ⟨row, hrows index _ hrow, hbit⟩).imp (·.of_same hlocation hdisk)
      (·.of_same hlocation hlate)
  · rw [hlate, hlocation]
    exact hs.late

/-- What is known of a block that passes the checks. -/
theorem Accepts.spec {index offset length n : ℕ} (ha : s.Accepts index offset length info n) :
    s.infoDict = some info ∧ index < info.pieceCount ∧ 0 < length ∧
      length = min (info.pieceLen index - offset) blockSize ∧ offset + length ≤ info.pieceLen index ∧
      n = divCeil (info.pieceLen index) blockSize := by
  obtain ⟨hindex, hoffset, hpos, hlength, hn⟩ := checkBlock_eq_some.1 ha.check
  exact ⟨ha.info, hindex, hpos, hlength, by omega, hn⟩

/-! ### Writing a block -/

section Writing

variable (hl : info.WellLaid c pieces)

include hl

/-- Pieces with one file have one length. -/
theorem pieceLen_eq_of_pieceFile {dir : Path} {i j : ℕ} {hash hash' : H} (hi : info.pieces[i]? = some hash)
    (hj : info.pieces[j]? = some hash') (h : pieceFile c dir hash = pieceFile c dir hash') :
    info.pieceLen i = info.pieceLen j := by
  simp only [pieceFile, List.append_cancel_left_eq, List.cons.injEq, and_true,
    List.append_cancel_right_eq] at h
  have hsame : c.sha1 (pieces i) = c.sha1 (pieces j) := by
    rw [hl.describes.hash i hash hi, hl.describes.hash j hash' hj, hl.toHex h]
  rw [← hl.length (List.getElem?_eq_some_iff.1 hi).1, ← hl.length (List.getElem?_eq_some_iff.1 hj).1,
    hl.sha1 hsame]

/-- A block within its piece leaves no file too long. -/
theorem trimmedIn_writeBlockToStorage {dir : Path} (hst : s.pieceStorage = .disk dir)
    (h : TrimmedIn c info s.disk dir) (hinfo : s.infoDict = some info) {index offset : ℕ} {block : Bytes}
    (hinside : offset + block.length ≤ info.pieceLen index) (env : WriteEnv) :
    TrimmedIn c info (s.writeBlockToStorage c index offset block env).1.disk dir := by
  unfold writeBlockToStorage
  simp only [hst, getPiecePath, hinfo]
  cases hhash : info.pieces[index]? with
  | none => exact h
  | some hash =>
      refine FileStore.writeSegments_induct (I := fun fs => TrimmedIn c info fs dir) _ ?_ _ _ _ _ h
      intro fs seg blk hseg hlen hfs j hash' data hj hdata
      obtain rfl := List.mem_singleton.1 hseg
      dsimp only at hlen hdata
      by_cases hpath : pieceFile c dir hash' = pieceFile c dir hash
      · rw [hpath, FileStore.write_apply_self, Option.some.injEq] at hdata
        have hold : ((fs (pieceFile c dir hash)).getD []).length ≤ info.pieceLen j := by
          cases hfile : fs (pieceFile c dir hash) with
          | none => exact Nat.zero_le _
          | some old => exact hfs j hash' old hj (hpath ▸ hfile)
        have hsame := pieceLen_eq_of_pieceFile hl hj hhash hpath
        rw [← hdata]
        by_cases hblk : blk = []
        · rw [writeAt, if_pos hblk]
          exact hold
        · rw [length_writeAt hblk]
          omega
      · rw [FileStore.write_apply_of_ne hpath] at hdata
        exact hfs j hash' data hj hdata

variable {index offset n : ℕ} {block : Bytes} {env : WriteEnv}

section Block

variable (hs : s.Backed c info pieces) (ha : s.Accepts index offset block.length info n)
  (hcontent : block = contentBlock pieces (index, offset, block.length))

include hs ha hcontent

/-- **A block of the content takes no byte of the content away.** -/
theorem HasByte.writeBlockToStorage {i x : ℕ} (hi : i < info.pieceCount) (hx : x < info.pieceLen i)
    (h : s.HasByte c info pieces i x) :
    (s.writeBlockToStorage c index offset block env).1.HasByte c info pieces i x := by
  obtain ⟨hinfo, hindex, hpos, -, hinside, -⟩ := ha.spec
  obtain ⟨location, pos, b, hlocation, hplace, hbyte, hb⟩ := h
  rcases writeBlockToStorage_cases hinfo hs.knows index offset hpos env with
    heq | ⟨location', segs, hlocation', hsegs, heq⟩
  · rw [heq]
    exact ⟨location, pos, b, hlocation, hplace, hbyte, hb⟩
  · obtain rfl := Option.some.inj (hlocation.symm.trans hlocation')
    obtain ⟨hplaces, -⟩ := StorageLocation.segments_place hpos hsegs
    rw [heq]
    refine ⟨location, pos, b, hlocation, hplace, ?_, hb⟩
    refine FileStore.byteAt_writeSegments_of_agree hbyte fun k d hk hd _ => ?_
    have hlt : k < block.length := (List.getElem?_eq_some_iff.1 hd).1
    rw [hplaces k hlt] at hk
    have hagree := StorageLocation.place_agree hl hindex hi (by omega) hx hk hplace
    rw [← getElem?_of_content hcontent hlt, hd, hb, Option.some.injEq] at hagree
    exact hagree

/-- **It brings its own if it is written**, at once or later. -/
theorem Backed.held_of_written (hwritten : (s.writeBlockToStorage c index offset block env).2 = true) {x : ℕ}
    (hstart : offset ≤ x) (hstop : x < offset + block.length) :
    (s.writeBlockToStorage c index offset block env).1.HasByte c info pieces index x ∨
      (s.writeBlockToStorage c index offset block env).1.OwesByte c info index x := by
  obtain ⟨hinfo, -, hpos, -⟩ := ha.spec
  rcases writeBlockToStorage_cases hinfo hs.knows index offset hpos env with
    heq | ⟨location, segs, hlocation, hsegs, heq⟩
  · rw [heq] at hwritten
    cases hwritten
  · obtain ⟨hplaces, hsum⟩ := StorageLocation.segments_place hpos hsegs
    obtain ⟨k, rfl⟩ := Nat.exists_eq_add_of_le hstart
    have hk : k < block.length := by omega
    have hbyte : block[k]? = some block[k] := List.getElem?_eq_getElem hk
    rw [heq] at hwritten ⊢
    rcases FileStore.reaches_or_late_of_ok hwritten hsum.symm hk with hreach | ⟨w, hw, m, hplace, hb⟩
    · obtain ⟨pos, hat⟩ : ∃ pos, (segs.flatMap Segment.positions)[k]? = some pos := by
        refine ⟨_, List.getElem?_eq_getElem ?_⟩
        rw [length_flatMap_positions, hsum]
        exact hk
      refine .inl ⟨location, pos, block[k], hlocation, (hplaces k hk).symm.trans hat, ?_,
        (getElem?_of_content hcontent hk).symm.trans hbyte⟩
      exact (FileStore.byteAt_writeSegments_of_reaches hsum.symm
        (StorageLocation.segments_nodup hl.outputPaths hpos hsegs) hat hreach).trans hbyte
    · exact .inr ⟨location, w, m, block[k], hlocation, List.mem_append_right _ hw,
        (hplaces k hk).symm.trans hplace, hb.trans hbyte⟩

/-- **Writing a block of the content keeps the torrent backed**, whether it succeeds or not. -/
theorem Backed.writeBlockToStorage : (s.writeBlockToStorage c index offset block env).1.Backed c info pieces := by
  obtain ⟨hinfo, hindex, hpos, -, hinside, -⟩ := ha.spec
  have hframe := writeBlockToStorage_eq c index offset block env s
  have hlocation : (s.writeBlockToStorage c index offset block env).1.location = s.location := by
    rw [hframe]
    rfl
  have hmore : ∀ w ∈ (s.writeBlockToStorage c index offset block env).1.unflushed, w ∈ s.unflushed ∨
      ∀ location, s.location = some location → location.Tolerates c info pieces w := by
    intro w hw
    rcases writeBlockToStorage_cases hinfo hs.knows index offset hpos env with
      heq | ⟨location, segs, hthere, hsegs, heq⟩
    · rw [heq] at hw
      exact .inl hw
    · rw [heq] at hw
      refine (List.mem_append.1 hw).imp_right fun hnew location' hthere' => ?_
      obtain rfl := Option.some.inj (hthere.symm.trans hthere')
      exact StorageLocation.tolerates_late hl hindex hpos hinside hcontent hsegs hnew
  have hkept : ∀ w ∈ s.unflushed, w ∈ (s.writeBlockToStorage c index offset block env).1.unflushed := by
    intro w hw
    rcases writeBlockToStorage_cases hinfo hs.knows index offset hpos env with heq | ⟨location, segs, -, -, heq⟩
    · rw [heq]
      exact hw
    · rw [heq]
      exact List.mem_append_left _ hw
  refine ⟨?_, ?_, ?_, ?_, ?_, ?_, ?_⟩
  · rw [hframe]
    exact hs.own
  · rw [hframe]
    exact hs.knows
  · intro dir hst
    have hst' : s.pieceStorage = .disk dir := by
      rw [hframe] at hst
      exact hst
    exact trimmedIn_writeBlockToStorage hl hst' (hs.trimmed dir hst') hinfo hinside env
  · rw [hframe]
    exact hs.rows
  · intro i x hi hx hbit
    rw [hframe] at hbit
    exact (hs.complete i x hi hx hbit).writeBlockToStorage hl hs ha hcontent hi hx
  · intro i x hi hx hblock
    rw [hframe] at hblock
    exact (hs.recorded i x hi hx hblock).imp (·.writeBlockToStorage hl hs ha hcontent hi hx)
      (·.of_more hlocation hkept)
  · intro w hw location hthere
    rw [hlocation] at hthere
    rcases hmore w hw with hold | hnew
    · exact hs.late w hold location hthere
    · exact hnew location hthere

/-- **A block that has been written may be recorded.** -/
theorem Backed.recordBlock (haligned : blockSize ∣ offset)
    (hwritten : (s.writeBlockToStorage c index offset block env).2 = true) :
    ((s.writeBlockToStorage c index offset block env).1.recordBlock index offset n).Backed c info pieces := by
  obtain ⟨hinfo, hindex, hpos, hlength, hinside, hn⟩ := ha.spec
  have hw : (s.writeBlockToStorage c index offset block env).1.Backed c info pieces :=
    hs.writeBlockToStorage hl ha hcontent
  have hnew := fun x => hs.held_of_written hl ha hcontent hwritten (x := x)
  have hinfo' : (s.writeBlockToStorage c index offset block env).1.infoDict = some info := by
    rw [writeBlockToStorage_eq]
    exact hinfo
  generalize (s.writeBlockToStorage c index offset block env).1 = w at hw hnew hinfo'
  refine ⟨hw.own, hw.knows, hw.trimmed, ?_, hw.complete, ?_, hw.late⟩
  · intro i row hrow
    refine ⟨hinfo', ?_⟩
    rw [completedBlocks_recordBlock, HashMap.get?_insert] at hrow
    split at hrow
    · rename_i hi
      cases hrow
      rw [hi, List.length_set]
      cases hold : w.pieceScheduler.completedBlocks.get? index with
      | none => simp [hn]
      | some row => exact (hw.rows index row hold).2
    · exact (hw.rows i row hrow).2
  · rintro i x hi hx ⟨row, hrow, hbit⟩
    have hbefore : w.Recorded i (x / blockSize) ∨ (i = index ∧ x / blockSize = offset / blockSize) := by
      rw [completedBlocks_recordBlock, HashMap.get?_insert] at hrow
      split at hrow
      · rename_i hsame
        cases hrow
        by_cases hblock : x / blockSize = offset / blockSize
        · exact .inr ⟨hsame, hblock⟩
        · rw [List.getElem?_set_ne (Ne.symm hblock)] at hbit
          left
          rw [hsame]
          cases hold : w.pieceScheduler.completedBlocks.get? index with
          | none =>
              rw [hold, Option.getD_none, List.getElem?_replicate] at hbit
              split at hbit <;> cases hbit
          | some row =>
              rw [hold, Option.getD_some] at hbit
              exact ⟨row, hold, hbit⟩
      · exact .inl ⟨row, hrow, hbit⟩
    rcases hbefore with hbefore | ⟨rfl, hblock⟩
    · exact hw.recorded i x hi hx hbefore
    · -- the block starts at a multiple of its size, so it is all of the row's block
      obtain ⟨k, rfl⟩ := haligned
      have hsize := blockSize_pos
      rw [Nat.mul_div_cancel_left k hsize] at hblock
      have hlow := Nat.div_mul_le_self x blockSize
      have hhigh := Nat.lt_div_mul_add hsize (a := x)
      rw [hblock] at hlow hhigh
      rw [Nat.mul_comm] at hlow hhigh
      refine hnew x hlow ?_
      omega

end Block

end Writing

/-! ### Committing a piece -/

variable [DecidableEq H]

/-- Committing a piece writes no file of a piece, where output files are apart from these, now or later. -/
theorem commit_pieceFile (pieces : ℕ → Bytes) {index : ℕ} (env : BlockEnv) (hinfo : s.infoDict = some info)
    (hknows : s.ManagerKnows) (hapart : ∀ j, s.OutputApart c info index j) {location : StorageLocation}
    (hlocation : s.location = some location) :
    (∀ j x pos, location.place c info j x = some pos →
      (s.validateAndCommitPiece c index env).1.disk pos.1 = s.disk pos.1) ∧
    (∀ w ∈ s.unflushed, w ∈ (s.validateAndCommitPiece c index env).1.unflushed) ∧
    ∀ w ∈ (s.validateAndCommitPiece c index env).1.unflushed, w ∈ s.unflushed ∨
      location.Tolerates c info pieces w := by
  rcases validateAndCommitPiece_cases c index env s with heq | ⟨dir, m, data, hst, hm, heq⟩
  · rw [heq]
    exact ⟨fun _ _ _ _ => rfl, fun _ hw => hw, fun _ hw => .inl hw⟩
  · rw [heq]
    simp only [TorrentActor.location, hst, Option.some.injEq] at hlocation
    subst hlocation
    have hne : ∀ (j : ℕ) (hash : H) (base : Path) (segs : List (Segment Path)), info.pieces[j]? = some hash →
        m.path = some base → pieceToPaths m.info index = .ok segs →
          ∀ seg ∈ segs, base ++ seg.path ≠ pieceFile c dir hash := by
      intro j hash base segs hhash hbase hsegs seg hseg
      rcases hknows m hm with hnone | hsome
      · rw [hnone] at hsegs
        cases hsegs
      · rw [hsome, hinfo] at hsegs
        exact hapart j dir m base segs hash hst hm hbase hsegs hhash seg hseg
    refine ⟨?_, fun _ hw => List.mem_append_left _ hw, fun w hw => (List.mem_append.1 hw).imp_right fun hnew => ?_⟩
    · intro j x pos hplace
      obtain ⟨hash, hhash, rfl⟩ := Option.map_eq_some_iff.1 hplace
      exact FilePieceManager.writePieceRange_apply_of_ne (fun base segs => hne j hash base segs hhash) 0 data env.recv
    · intro hash hhash
      obtain ⟨j, hj⟩ := List.mem_iff_getElem?.1 hhash
      obtain ⟨base, segs, hbase, hsegs, seg, hseg, hpath⟩ := FilePieceManager.mem_late_writePieceRange hnew
      rw [hpath]
      exact hne j hash base segs hj hbase hsegs seg hseg

theorem location_validateAndCommitPiece (c : Codec H) (index : ℕ) (env : BlockEnv) (s : TorrentActor H) :
    (s.validateAndCommitPiece c index env).1.location = s.location := by
  rw [validateAndCommitPiece_eq]
  rfl

theorem HasByte.validateAndCommitPiece {index i x : ℕ} (env : BlockEnv) (hinfo : s.infoDict = some info)
    (hknows : s.ManagerKnows) (hapart : ∀ j, s.OutputApart c info index j)
    (h : s.HasByte c info pieces i x) :
    (s.validateAndCommitPiece c index env).1.HasByte c info pieces i x := by
  obtain ⟨location, pos, b, hlocation, hplace, hbyte, hb⟩ := h
  refine ⟨location, pos, b, (location_validateAndCommitPiece c index env s).trans hlocation, hplace, ?_, hb⟩
  rw [FileStore.byteAt, (commit_pieceFile pieces env hinfo hknows hapart hlocation).1 i x pos hplace]
  exact hbyte

/-- **Committing a piece keeps the torrent backed.** -/
theorem Backed.validateAndCommitPiece (hs : s.Backed c info pieces) {index : ℕ} (env : BlockEnv)
    (hinfo : s.infoDict = some info) (hapart : ∀ j, s.OutputApart c info index j) :
    (s.validateAndCommitPiece c index env).1.Backed c info pieces := by
  have hframe := validateAndCommitPiece_eq c index env s
  have hlocation := location_validateAndCommitPiece c index env s
  refine ⟨?_, ?_, ?_, ?_, ?_, ?_, ?_⟩
  · rw [hframe]
    exact hs.own
  · rw [hframe]
    exact hs.knows
  · intro dir hst j hash data hhash hdata
    have hst' : s.pieceStorage = .disk dir := by
      rw [hframe] at hst
      exact hst
    have hthere : s.location = some (.pieceFiles dir) := by rw [TorrentActor.location, hst']
    have hplace : (StorageLocation.pieceFiles dir).place c info j 0 = some (pieceFile c dir hash, 0) := by
      rw [StorageLocation.place, hhash]
      rfl
    have hsame := (commit_pieceFile pieces env hinfo hs.knows hapart hthere).1 j 0 _ hplace
    exact hs.trimmed dir hst' j hash data hhash (hsame.symm.trans hdata)
  · rw [hframe]
    exact hs.rows
  · intro i x hi hx hbit
    rw [hframe] at hbit
    exact (hs.complete i x hi hx hbit).validateAndCommitPiece env hinfo hs.knows hapart
  · intro i x hi hx hblock
    rw [hframe] at hblock
    refine (hs.recorded i x hi hx hblock).imp (·.validateAndCommitPiece env hinfo hs.knows hapart) fun howes => ?_
    obtain ⟨location, -, -, -, hthere, -⟩ := id howes
    exact howes.of_more hlocation (commit_pieceFile pieces env hinfo hs.knows hapart hthere).2.1
  · intro w hw location hthere
    rw [hlocation] at hthere
    rcases (commit_pieceFile pieces env hinfo hs.knows hapart hthere).2.2 w hw with hold | hnew
    · exact hs.late w hold location hthere
    · exact hnew

omit [DecidableEq H] in
/-- **A piece that is there may be marked complete.** -/
theorem Backed.completePiece (hs : s.Backed c info pieces) {index : ℕ}
    (hall : ∀ x < info.pieceLen index, s.HasByte c info pieces index x) :
    (s.completePiece index).Backed c info pieces := by
  refine ⟨hs.own, hs.knows, hs.trimmed, ?_, ?_, ?_, hs.late⟩
  · intro i row hrow
    exact hs.rows i row (HashMap.get?_of_get?_erase hrow).2
  · intro i x hi hx hbit
    by_cases hsame : i = index
    · subst hsame
      exact (hall x hx).of_same rfl rfl
    · change (s.bitfield.set index true)[i]? = some true at hbit
      rw [List.getElem?_set_ne (Ne.symm hsame)] at hbit
      exact (hs.complete i x hi hx hbit).of_same rfl rfl
  · rintro i x hi hx ⟨row, hrow, hbit⟩
    exact (hs.recorded i x hi hx ⟨row, (HashMap.get?_of_get?_erase hrow).2, hbit⟩).imp (·.of_same rfl rfl)
      (·.of_same rfl rfl)

/-- **A piece that is taken is there.** -/
theorem hasByte_of_commit (hl : info.WellLaid c pieces) {index x : ℕ} {env : BlockEnv}
    (hinfo : s.infoDict = some info) (hknows : s.ManagerKnows) (hx : x < info.pieceLen index)
    (hc : (s.validateAndCommitPiece c index env).2 = true) : s.HasByte c info pieces index x := by
  obtain ⟨hash, data, hhash, hdata, hsha⟩ := pieceStored_of_commit hinfo hknows hc
  have hsame : data = pieces index := hl.sha1 (hsha.trans (hl.describes.hash index hash hhash).symm)
  rw [hsame] at hdata
  exact hasByte_of_storedPiece hl hhash hdata hx

/-- **A block of the content keeps the torrent backed**, whatever becomes of it. -/
theorem Backed.handleIncomingPiece (hl : info.WellLaid c pieces) (hs : s.Backed c info pieces)
    {index offset : ℕ} {block : Bytes}
    (hfaithful : ∀ n, s.Accepts index offset block.length info n → blockSize ∣ offset ∧
      block = contentBlock pieces (index, offset, block.length) ∧ ∀ j, s.OutputApart c info index j)
    (p : PeerId) (env : BlockEnv) :
    (s.handleIncomingPiece c p index offset block env).Backed c info pieces := by
  have hown : ∀ {dict : Info H} {n : ℕ}, s.Accepts index offset block.length dict n → dict = info := by
    intro dict n ha
    rcases hs.own with hnone | hsome
    · cases hnone.symm.trans ha.info
    · exact Option.some.inj (ha.info.symm.trans hsome)
  have hwrite := writeBlockToStorage_eq c index offset block env.write s
  -- what is known once the last block has been recorded and the row has been dropped
  have hdropped : ∀ {u v : TorrentActor H} {n : ℕ}, s.Accepts index offset block.length info n →
      (s.writeBlockToStorage c index offset block env.write).2 = true →
      u = (s.writeBlockToStorage c index offset block env.write).1.recordBlock index offset n →
      v = { u.mapScheduler (·.removePieceBlocks index) with outbox := v.outbox } →
      v.Backed c info pieces ∧ v.infoDict = some info ∧ ∀ j, v.OutputApart c info index j := by
    intro u v n ha hw hu hv
    obtain ⟨haligned, hcontent, hapart⟩ := hfaithful n ha
    have hrecorded := hs.recordBlock hl ha hcontent haligned hw
    rw [← hu] at hrecorded
    have hinfo : u.infoDict = some info := by
      rw [hu, hwrite]
      exact ha.info
    have hapart' : ∀ j, u.OutputApart c info index j := by
      rw [hu, hwrite]
      exact hapart
    rw [hv]
    refine ⟨hrecorded.of_less rfl rfl rfl rfl rfl rfl ?_, hinfo, hapart'⟩
    exact fun i row hrow => (HashMap.get?_of_get?_erase hrow).2
  cases handlesBlock c s p index offset block env with
  | ignored h _ => exact h.backed hs
  | unwritten ha _ h =>
      obtain rfl := hown ha
      obtain ⟨-, hcontent, -⟩ := hfaithful _ ha
      exact h.backed (hs.writeBlockToStorage hl ha hcontent)
  | recorded ha hw hu _ h =>
      obtain rfl := hown ha
      obtain ⟨haligned, hcontent, -⟩ := hfaithful _ ha
      refine h.backed ?_
      rw [hu]
      exact hs.recordBlock hl ha hcontent haligned hw
  | uncommitted ha hw hu _ hv _ h =>
      obtain rfl := hown ha
      obtain ⟨hv', hinfo, hapart⟩ := hdropped ha hw hu hv
      exact h.backed (hv'.validateAndCommitPiece env hinfo hapart)
  | committed ha hw hu _ hv hc h =>
      obtain rfl := hown ha
      obtain ⟨hv', hinfo, hapart⟩ := hdropped ha hw hu hv
      refine h.backed ((hv'.validateAndCommitPiece env hinfo hapart).completePiece fun x hx => ?_)
      exact (hasByte_of_commit hl hinfo hv'.knows hx hc).validateAndCommitPiece env hinfo hv'.knows hapart

/-! ### The other messages -/

/-- Metadata that is resolved brings no claims. -/
theorem Backed.infoBytes (hs : s.Backed c info pieces) {bytes : Bytes}
    (hown : s.infoDict = none → c.sha1 bytes = s.infoHash → ∀ dict, c.fromBytes bytes = some dict → dict = info)
    (env : BroadcastEnv) : (s.infoBytes c bytes env).Backed c info pieces := by
  rcases infoBytes_cases c bytes env s with heq | ⟨dict, hnone, hhash, hdict, heq⟩
  · rw [heq]
    exact hs
  · obtain rfl := hown hnone hhash dict hdict
    have hrows : ∀ index, s.pieceScheduler.completedBlocks.get? index = none := by
      intro index
      refine Option.eq_none_iff_forall_ne_some.2 fun row hrow => ?_
      cases hnone.symm.trans (hs.rows index row hrow).1
    rw [heq]
    have hinfo : (s.resolveMetadata dict).infoDict = some dict := infoDict_resolveMetadata hnone
    refine ⟨.inr hinfo, ?_, hs.trimmed, ?_, ?_, ?_, hs.late⟩
    · intro m hm
      rcases hs.knows m hm with h | h
      · exact .inl h
      · exact .inl (h.trans hnone)
    · intro index row hrow
      cases (hrows index).symm.trans hrow
    · intro index x _ _ hbit
      change (List.replicate dict.pieceCount false)[index]? = some true at hbit
      rw [List.getElem?_replicate] at hbit
      split at hbit <;> cases hbit
    · rintro index x - - ⟨row, hrow, -⟩
      cases (hrows index).symm.trans hrow

omit [DecidableEq H] in
theorem leaveFailed_disk (s : TorrentActor H) : s.leaveFailed.disk = s.disk := by
  unfold leaveFailed
  split <;> rfl

omit [DecidableEq H] in
theorem leaveFailed_unflushed (s : TorrentActor H) : s.leaveFailed.unflushed = s.unflushed := by
  unfold leaveFailed
  split <;> rfl

omit [DecidableEq H] in
theorem leaveFailed_pieceStorage (s : TorrentActor H) : s.leaveFailed.pieceStorage = s.pieceStorage := by
  unfold leaveFailed
  split <;> rfl

/-- A change of the storage writes nothing. -/
theorem disk_setter {m : TorrentMessage c} (hm : (∃ strategy created, m = .setPieceStorage strategy created) ∨
    (∃ preStarted, m = .setPieceManager preStarted) ∨ ∃ path created, m = .setOutputPath path created) :
    (s.handle m).disk = s.disk ∧ (s.handle m).unflushed = s.unflushed := by
  rcases hm with ⟨strategy, created, rfl⟩ | ⟨preStarted, rfl⟩ | ⟨path, created, rfl⟩
  · change (s.setPieceStorage strategy created).disk = s.disk ∧
      (s.setPieceStorage strategy created).unflushed = s.unflushed
    rw [setPieceStorage_eq]
    split
    · exact ⟨leaveFailed_disk _, leaveFailed_unflushed _⟩
    · exact ⟨rfl, rfl⟩
  · change (s.setPieceManager preStarted).disk = s.disk ∧ (s.setPieceManager preStarted).unflushed = s.unflushed
    rw [setPieceManager_eq]
    split
    · exact ⟨rfl, rfl⟩
    · exact ⟨rfl, rfl⟩
  · change (s.setOutputPath path created).disk = s.disk ∧ (s.setOutputPath path created).unflushed = s.unflushed
    rw [setOutputPath_eq]
    cases s.pieceManager with
    | custom => exact ⟨rfl, rfl⟩
    | default manager =>
        simp only
        split
        · exact ⟨leaveFailed_disk _, leaveFailed_unflushed _⟩
        · exact ⟨rfl, rfl⟩

/-- Nothing is left to be written, or the message leaves the storage where it is. -/
def Settles (s : TorrentActor H) (m : TorrentMessage c) : Prop :=
  s.unflushed = [] ∨ (s.handle m).location = s.location

/-- A change of the storage that nothing recorded stands against loses no byte. -/
theorem Backed.setter (hs : s.Backed c info pieces) {m : TorrentMessage c} (hnot : ¬ s.Exposed m)
    (hsettles : s.Settles m)
    (hm : (∃ strategy created, m = .setPieceStorage strategy created) ∨
      (∃ preStarted, m = .setPieceManager preStarted) ∨ ∃ path created, m = .setOutputPath path created)
    (hknows : (s.handle m).ManagerKnows)
    (htrimmed : ∀ dir, (s.handle m).pieceStorage = .disk dir → TrimmedIn c info s.disk dir) :
    (s.handle m).Backed c info pieces := by
  have hbits : SameBits s (s.handle m) := by
    refine sameBits_handle s ?_
    rcases hm with ⟨_, _, rfl⟩ | ⟨_, rfl⟩ | ⟨_, _, rfl⟩ <;> trivial
  obtain ⟨hdisk, hlate⟩ := disk_setter (s := s) hm
  refine ⟨?_, hknows, ?_, ?_, ?_, ?_, ?_⟩
  · rw [hbits.infoDict]
    exact hs.own
  · rw [hdisk]
    exact htrimmed
  · rw [hbits.completedBlocks, hbits.infoDict]
    exact hs.rows
  · intro index x hindex hx hbit
    -- a complete piece stands in the way of every change
    rw [hbits.bitfield] at hbit
    have hempty : s.isEmpty = false := by
      rw [isEmpty, List.all_eq_false]
      exact ⟨true, List.mem_of_getElem? hbit, by simp⟩
    have hunchanged : s.handle m = s := by
      rcases hm with ⟨_, _, rfl⟩ | ⟨_, rfl⟩ | ⟨_, _, rfl⟩ <;> exact if_pos hempty
    rw [hunchanged]
    exact hs.complete index x hindex hx hbit
  · intro index x hindex hx hblock
    -- and so does a recorded block if the message is not exposed
    have hbefore := hbits.recorded hblock
    have hlocation := location_setter hnot ⟨_, _, hbefore⟩ hm
    exact (hs.recorded index x hindex hx hbefore).imp (·.of_same hlocation hdisk) (·.of_same hlocation hlate)
  · intro w hw location hthere
    rw [hlate] at hw
    rcases hsettles with hnone | hlocation
    · rw [hnone] at hw
      cases hw
    · exact hs.late w hw location (hlocation.symm.trans hthere)

omit [DecidableEq H] in
/-- **What is written in the background keeps the torrent backed.** -/
theorem Backed.writeLate (hs : s.Backed c info pieces) (n k : ℕ) : (s.writeLate n k).Backed c info pieces := by
  have hframe := writeLate_eq n k s
  have hlocation : (s.writeLate n k).location = s.location := by
    rw [hframe]
    rfl
  rcases writeLate_cases n k s with heq | ⟨w, hw, hdisk, hfrom, hto, hrest⟩
  · rw [heq]
    exact hs
  · -- a byte that is written over a place is the content
    have hkept : ∀ i x, i < info.pieceCount → x < info.pieceLen i → s.HasByte c info pieces i x →
        (s.writeLate n k).HasByte c info pieces i x := by
      rintro i x hi hx ⟨location, pos, b, hthere, hplace, hbyte, hb⟩
      refine ⟨location, pos, b, hlocation.trans hthere, hplace, ?_, hb⟩
      rw [hdisk]
      refine FileStore.byteAt_write_of_agree hbyte fun j hj hpos => ?_
      have hj' := hj
      rw [List.length_take] at hj'
      have hget : w.bytes[j]? = some w.bytes[j] := List.getElem?_eq_getElem (by omega)
      rw [hpos] at hplace
      rw [List.getElem?_take, if_pos (by omega), hget, ← hb]
      exact ((hs.late w hw location hthere).agree hget hi hx hplace).symm
    have hmoved : ∀ i x, i < info.pieceCount → x < info.pieceLen i → s.OwesByte c info i x →
        (s.writeLate n k).HasByte c info pieces i x ∨ (s.writeLate n k).OwesByte c info i x := by
      rintro i x hi hx ⟨location, w', j, b, hthere, hw', hplace, hb⟩
      have hcontent := (hs.late w' hw' location hthere).agree hb hi hx hplace
      rcases hto w' hw' with rfl | hstays
      · obtain ⟨hlt, -⟩ := List.getElem?_eq_some_iff.1 hb
        rcases Nat.lt_or_ge j k with hj | hj
        · refine .inl ⟨location, _, b, hlocation.trans hthere, hplace, ?_, hcontent⟩
          rw [hdisk, FileStore.byteAt_write_inside _ _ (by rw [List.length_take]; omega), List.getElem?_take,
            if_pos hj, hb]
        · refine .inr ⟨location, _, j - k, b, hlocation.trans hthere, hrest ?_, ?_, ?_⟩
          · rw [ne_eq, List.drop_eq_nil_iff]
            omega
          · rw [hplace, Nat.add_assoc, Nat.add_sub_cancel' hj]
          · rw [List.getElem?_drop, Nat.add_sub_cancel' hj, hb]
      · exact .inr ⟨location, w', j, b, hlocation.trans hthere, hstays, hplace, hb⟩
    refine ⟨?_, ?_, ?_, ?_, ?_, ?_, ?_⟩
    · rw [hframe]
      exact hs.own
    · rw [hframe]
      exact hs.knows
    · intro dir hst index hash data hhash hdata
      have hst' : s.pieceStorage = .disk dir := by
        rw [hframe] at hst
        exact hst
      have hthere : s.location = some (.pieceFiles dir) := by rw [TorrentActor.location, hst']
      have hne : w.path ≠ pieceFile c dir hash := hs.late w hw _ hthere hash (List.mem_of_getElem? hhash)
      rw [hdisk, FileStore.write_apply_of_ne hne.symm] at hdata
      exact hs.trimmed dir hst' index hash data hhash hdata
    · rw [hframe]
      exact hs.rows
    · intro i x hi hx hbit
      rw [hframe] at hbit
      exact hkept i x hi hx (hs.complete i x hi hx hbit)
    · intro i x hi hx hblock
      rw [hframe] at hblock
      rcases hs.recorded i x hi hx hblock with hthere | howed
      · exact .inl (hkept i x hi hx hthere)
      · exact hmoved i x hi hx howed
    · intro w' hw' location hthere
      rw [hlocation] at hthere
      rcases hfrom w' hw' with hold | rfl
      · exact hs.late w' hold location hthere
      · exact (hs.late w hw location hthere).rest k

/-! ### When a piece is taken -/

/-- The files can be read again, and the piece manager takes the content of the piece. -/
def CanCommit (pieces : ℕ → Bytes) (s : TorrentActor H) (index : ℕ) (env : BlockEnv) : Prop :=
  env.read = true ∧ ∀ dir, s.pieceStorage = .disk dir → (s.recvPiece index (pieces index) env).2 = true

end TorrentActor

/-! ### Runs in which only the content comes -/

section Runs

variable [DecidableEq H] {c : Codec H} {info : Info H} {pieces : ℕ → Bytes}

/-- The message brings nothing but the content: a block that passes the checks starts where a block starts and has the
bytes of the content, and no output file is the file of a piece; the metadata is that of the content; of what a
snapshot says it has everything is there; and the storage is not changed under recorded blocks, nor before everything
is written, nor to a folder with a file that is too long for its piece. -/
def TorrentActor.Faithful (c : Codec H) (info : Info H) (pieces : ℕ → Bytes) (s : TorrentActor H) :
    TorrentMessage c → Prop
  | .incomingPiece _ index offset block _ => ∀ n, s.Accepts index offset block.length info n →
      blockSize ∣ offset ∧ block = contentBlock pieces (index, offset, block.length) ∧
        ∀ j, s.OutputApart c info index j
  | .infoBytes bytes _ => s.infoDict = none → c.sha1 bytes = s.infoHash →
      ∀ dict, c.fromBytes bytes = some dict → dict = info
  | .restoreSnapshot v => (s.restoreSnapshot v.snapshot).Backed c info pieces
  | .setPieceStorage strategy created => ¬ s.Exposed (.setPieceStorage (c := c) strategy created) ∧
      s.Settles (.setPieceStorage (c := c) strategy created) ∧
      ∀ dir, strategy = .disk dir → TorrentActor.TrimmedIn c info s.disk dir
  | m => ¬ s.Exposed m ∧ s.Settles m

/-- **Every message that brings nothing but the content keeps the torrent backed.** -/
theorem TorrentActor.Backed.step {s : TorrentActor H} (hl : info.WellLaid c pieces)
    (hs : s.Backed c info pieces) {i : Input c} (hfaithful : (s.next i.check).Faithful c info pieces i.message) :
    (s.step i).Backed c info pieces := by
  have hs' := (sameData_next i.check s).backed hs
  unfold TorrentActor.step
  -- from here on the state is the one that the message meets
  generalize s.next i.check = s at hfaithful hs' ⊢
  cases hm : i.message with
  | incomingPiece p index offset block env =>
      rw [hm] at hfaithful
      exact hs'.handleIncomingPiece hl hfaithful p env
  | infoBytes bytes env =>
      rw [hm] at hfaithful
      exact hs'.infoBytes hfaithful env
  | restoreSnapshot v =>
      rw [hm] at hfaithful
      exact hfaithful
  | setPieceStorage strategy created =>
      rw [hm] at hfaithful
      refine hs'.setter hfaithful.1 hfaithful.2.1 (.inl ⟨strategy, created, rfl⟩)
        (hs'.knows.setPieceStorage strategy created) fun dir hdir => ?_
      change (s.setPieceStorage strategy created).pieceStorage = .disk dir at hdir
      rw [setPieceStorage_eq] at hdir
      split at hdir
      · rw [leaveFailed_pieceStorage] at hdir
        exact hfaithful.2.2 dir hdir
      · exact hs'.trimmed dir hdir
  | setPieceManager preStarted =>
      rw [hm] at hfaithful
      refine hs'.setter hfaithful.1 hfaithful.2 (.inr (.inl ⟨preStarted, rfl⟩))
        (hs'.knows.setPieceManager preStarted) fun dir hdir => hs'.trimmed dir ?_
      change (s.setPieceManager preStarted).pieceStorage = .disk dir at hdir
      rw [setPieceManager_eq] at hdir
      split at hdir <;> exact hdir
  | setOutputPath path created =>
      rw [hm] at hfaithful
      refine hs'.setter hfaithful.1 hfaithful.2 (.inr (.inr ⟨path, created, rfl⟩))
        (hs'.knows.setOutputPath path created) fun dir hdir => hs'.trimmed dir ?_
      change (s.setOutputPath path created).pieceStorage = .disk dir at hdir
      rw [setOutputPath_eq] at hdir
      split at hdir
      · exact hdir
      · split at hdir
        · rw [leaveFailed_pieceStorage] at hdir
          exact hdir
        · exact hdir
  | background n k => exact hs'.writeLate n k
  | _ =>
      refine (sameData_handle _ ?_).backed hs'
      exact trivial

omit [DecidableEq H] in
/-- What is read of a complete piece is the content. -/
theorem TorrentActor.Backed.readPieceBlock {s : TorrentActor H} (hl : info.WellLaid c pieces)
    (hs : s.Backed c info pieces) (hdict : s.infoDict = some info) (hlen : s.bitfield.length = info.pieceCount)
    {key : BlockKey} (hbit : s.bitfield[key.1]? = some true) (hpos : 0 < key.2.2)
    (hinside : key.2.1 + key.2.2 ≤ info.pieceLen key.1) :
    (∀ found, s.readPieceBlock c key.1 key.2.1 key.2.2 = some found → found = contentBlock pieces key) ∧
    (CanRead s → s.readPieceBlock c key.1 key.2.1 key.2.2 = some (contentBlock pieces key)) := by
  have hindex : key.1 < info.pieceCount := by
    rw [← hlen]
    exact (List.getElem?_eq_some_iff.1 hbit).1
  obtain ⟨hash, hhash⟩ : ∃ hash, info.pieces[key.1]? = some hash :=
    ⟨_, List.getElem?_eq_getElem hindex⟩
  have hstored : s.storedPiece c info key.1 hash = some (pieces key.1) :=
    TorrentActor.storedPiece_of_hasByte hl hs.trimmed hhash fun x hx => hs.complete key.1 x hindex hx hbit
  exact TorrentActor.readPieceBlock_inside hdict hl.consistent hs.knows hhash hstored (hl.length hindex) hpos hinside

end Runs

/-! ### A byte that comes twice -/

namespace Sample

end Sample

end Tortillas
