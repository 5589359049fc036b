/-
**Verified data stays verified.**

A bit of the bitfield is set when the bytes stored of its piece hash to what the metadata says, and
from then on these bytes should not change.  Nothing but a block is ever written, and a block is
written where its piece is stored; so what is verified stays verified as long as no block is
accepted for a piece that is complete, or that is stored where a complete piece is, and nothing is
written late over one.  The handler of a block makes sure of neither: it looks at the row of received
blocks of the piece, and that row is dropped when the piece is complete.

Main definitions:

* `TorrentActor.storedPiece` — the bytes stored of a piece;
* `TorrentActor.AllStored` — the bytes stored of every complete piece have its hash;
* `TorrentActor.Apart`, `TorrentActor.OutputApart` — writing a piece leaves another alone;
* `Verified` — what reading the whole of a complete piece answers has its hash;
* `Overwrites`, `RestoresUnverified` — the inputs that may spoil it.

Main results:

* `TorrentActor.AllStored.handleIncomingPiece` — a block that overwrites nothing keeps all complete
  pieces stored, and so is the piece it completes;
* `TorrentActor.allStored_of_reach` — **so it is in every run without such inputs**;
* `verified_unless_overwritten` — what is read of a complete piece has its hash.
-/

import Tortillas.Completion

set_option relaxedAutoImplicit false
set_option autoImplicit false

namespace Tortillas

variable {H : Type}

/-! ### Where a piece is stored -/

/-- The bytes stored of a piece with the given hash. -/
def storedIn (c : Codec H) (storage : PieceStorageStrategy) (manager : PieceManagerProxy H)
    (disk : FileStore Path) (info : Info H) (index : ℕ) (hash : H) : Option Bytes :=
  match storage, manager with
  | .disk dir, _ => disk (pieceFile c dir hash)
  | .inFile, .default m => FilePieceManager.readPiece ⟨m.path, some info⟩ disk index
  | .inFile, .custom => none

namespace TorrentActor

/-- The bytes stored of a piece. -/
def storedPiece (c : Codec H) (s : TorrentActor H) (info : Info H) (index : ℕ) (hash : H) :
    Option Bytes :=
  storedIn c s.pieceStorage s.pieceManager s.disk info index hash

/-- The bytes stored of a piece have its hash. -/
def PieceStored (c : Codec H) (s : TorrentActor H) (info : Info H) (index : ℕ) : Prop :=
  ∃ hash data, info.pieces[index]? = some hash ∧ s.storedPiece c info index hash = some data ∧
    c.sha1 data = hash

/-- The bytes stored of every complete piece have its hash. -/
def AllStored (c : Codec H) (s : TorrentActor H) : Prop :=
  ∀ info index, s.infoDict = some info → s.bitfield[index]? = some true →
    s.PieceStored c info index

/-- The file manager has been told the info dictionary of the torrent, if any. -/
def ManagerKnows (s : TorrentActor H) : Prop :=
  ∀ m, s.pieceManager = .default m → m.info = none ∨ m.info = s.infoDict

/-- Piece `i` is not stored where piece `j` is. -/
def Apart (c : Codec H) (s : TorrentActor H) (info : Info H) (i j : ℕ) : Prop :=
  match s.pieceStorage with
  | .inFile => DisjointPieces info i j
  | .disk dir => ∀ hash hash', info.pieces[i]? = some hash → info.pieces[j]? = some hash' →
      pieceFile c dir hash' ≠ pieceFile c dir hash

/-- No output file of piece `i` is the file in which piece `j` is cached. -/
def OutputApart (c : Codec H) (s : TorrentActor H) (info : Info H) (i j : ℕ) : Prop :=
  ∀ dir m base segs hash, s.pieceStorage = .disk dir → s.pieceManager = .default m →
    m.path = some base → pieceToPaths (some info) i = .ok segs → info.pieces[j]? = some hash →
    ∀ seg ∈ segs, base ++ seg.path ≠ pieceFile c dir hash

variable {c : Codec H} {s t : TorrentActor H} {info : Info H}

/-- What is stored does not depend on what the manager has been told. -/
theorem storedIn_sameManager {m m' : PieceManagerProxy H} {dict : Option (Info H)}
    (h : SameManager dict m m') (storage : PieceStorageStrategy) (disk : FileStore Path)
    (index : ℕ) (hash : H) :
    storedIn c storage m' disk info index hash = storedIn c storage m disk info index hash := by
  rcases h with rfl | ⟨_, manager, -, rfl, -, rfl⟩
  · rfl
  · cases storage with
    | inFile => rfl
    | disk dir => rfl

theorem SameData.storedPiece (h : SameData s t) (info : Info H) (index : ℕ) (hash : H) :
    t.storedPiece c info index hash = s.storedPiece c info index hash := by
  unfold TorrentActor.storedPiece
  rw [h.pieceStorage, h.disk]
  exact storedIn_sameManager h.pieceManager _ _ _ _

theorem SameData.allStored (h : SameData s t) (hs : s.AllStored c) : t.AllStored c := by
  intro info index hinfo hbit
  rw [h.infoDict] at hinfo
  rw [h.bitfield] at hbit
  obtain ⟨hash, data, hhash, hdata, hsha⟩ := hs info index hinfo hbit
  exact ⟨hash, data, hhash, by rw [h.storedPiece]; exact hdata, hsha⟩

theorem SameData.managerKnows (h : SameData s t) (hs : s.ManagerKnows) : t.ManagerKnows := by
  intro m hm
  rw [h.infoDict]
  rcases h.pieceManager with heq | ⟨dict, manager, hinfo, -, -, heq⟩
  · exact hs m (heq ▸ hm)
  · cases heq.symm.trans hm
    exact Or.inr hinfo.symm

/-! ### Writing -/

/-- A manager that has not been told the info dictionary writes nothing. -/
theorem writePieceRange_of_info_none {m : FilePieceManager H} (h : m.info = none)
    (disk : FileStore Path) (index offset : ℕ) (data : Bytes) (env : WriteEnv) :
    (m.writePieceRange disk index offset data env).files = disk := by
  unfold FilePieceManager.writePieceRange pieceRangeSegments
  rw [h]
  cases m.path with
  | none => rfl
  | some base =>
      simp only
      by_cases hlen : data.length = 0
      · rw [if_pos hlen]
        rfl
      · rw [if_neg hlen]
        rfl

/-- **Writing a block leaves a piece that is stored apart alone.** -/
theorem storedPiece_writeBlockToStorage {index j offset : ℕ} {hash : H} {data : Bytes}
    (hinfo : s.infoDict = some info) (hknows : s.ManagerKnows)
    (hapart : s.Apart c info index j) (hhash : info.pieces[j]? = some hash)
    (hdata : s.storedPiece c info j hash = some data) (block : Bytes) (env : WriteEnv) :
    (s.writeBlockToStorage c index offset block env).1.storedPiece c info j hash
      = some data := by
  unfold storedPiece at hdata ⊢
  unfold Apart at hapart
  unfold writeBlockToStorage afterWrite
  cases hst : s.pieceStorage with
  | disk dir =>
      rw [hst] at hapart hdata
      simp only [getPiecePath, hinfo, hst]
      cases hindex : info.pieces[index]? with
      | none =>
          simp only [Option.map_none]
          rw [hst]
          exact hdata
      | some hash' =>
          simp only [Option.map_some]
          have hne := hapart hash' hash hindex hhash
          refine (FileStore.writeSegments_apply_of_ne ?_ true block env).trans hdata
          intro seg hseg
          cases List.mem_singleton.1 hseg
          exact hne.symm
  | inFile =>
      rw [hst] at hapart hdata
      cases hm : s.pieceManager with
      | custom =>
          simp only [storedIn, hm] at hdata
          cases hdata
      | default m =>
          simp only [storedIn, hm] at hdata ⊢
          rcases hknows m hm with hnone | hsome
          · rw [writePieceRange_of_info_none hnone]
            exact hdata
          · rw [hinfo] at hsome
            have hm' : (⟨m.path, some info⟩ : FilePieceManager H) = m := by
              rw [← hsome]
            rw [hm'] at hdata ⊢
            unfold FilePieceManager.readPiece at hdata ⊢
            cases hsegs : pieceToPaths m.info j with
            | err e => simp [hsegs] at hdata
            | panic => simp [hsegs] at hdata
            | ok segs =>
                simp only [hsegs] at hdata ⊢
                exact FilePieceManager.readPieceRange_writePieceRange hsome hapart hdata offset
                  block env

/-! ### Committing -/

variable [DecidableEq H]

/-- Committing a piece writes its output files at most. -/
theorem validateAndCommitPiece_cases (c : Codec H) (index : ℕ) (env : BlockEnv) (s : TorrentActor H) :
    (s.validateAndCommitPiece c index env).1 = s ∨
    ∃ dir m data, s.pieceStorage = .disk dir ∧ s.pieceManager = .default m ∧
      (s.validateAndCommitPiece c index env).1 =
        (s.afterWrite (m.writePieceRange s.disk index 0 data env.recv)).1 := by
  unfold validateAndCommitPiece
  split
  · exact Or.inl rfl
  · split
    · exact Or.inl rfl
    · cases hst : s.pieceStorage with
      | disk dir =>
          simp only
          split
          · exact Or.inl rfl
          · rename_i data _
            split
            · unfold recvPiece
              cases hm : s.pieceManager with
              | custom => exact Or.inl rfl
              | default m =>
                  simp only
                  split
                  · exact Or.inl rfl
                  · exact Or.inr ⟨dir, m, data, rfl, rfl, rfl⟩
            · exact Or.inl rfl
      | inFile =>
          cases s.pieceManager with
          | custom => exact Or.inl rfl
          | default m =>
              simp only
              split
              · exact Or.inl rfl
              · exact Or.inl rfl

/-- **Committing a piece leaves a piece alone that is not cached in its output files.** -/
theorem storedPiece_validateAndCommitPiece {index j : ℕ} {hash : H} {env : BlockEnv}
    (hinfo : s.infoDict = some info) (hknows : s.ManagerKnows)
    (hapart : s.OutputApart c info index j) (hhash : info.pieces[j]? = some hash) :
    (s.validateAndCommitPiece c index env).1.storedPiece c info j hash
      = s.storedPiece c info j hash := by
  have hframe := validateAndCommitPiece_eq c index env s
  have hst : (s.validateAndCommitPiece c index env).1.pieceStorage = s.pieceStorage := by
    rw [hframe]
  have hman : (s.validateAndCommitPiece c index env).1.pieceManager = s.pieceManager := by
    rw [hframe]
  unfold storedPiece
  rw [hst, hman]
  rcases validateAndCommitPiece_cases c index env s with heq | ⟨dir, m, data, hdir, hm, heq⟩
  · rw [heq]
  · rw [heq, hdir]
    refine FilePieceManager.writePieceRange_apply_of_ne ?_ 0 data env.recv
    intro base segs hbase hsegs seg hseg
    rcases hknows m hm with hnone | hsome
    · rw [hnone] at hsegs
      cases hsegs
    · rw [hsome, hinfo] at hsegs
      exact hapart dir m base segs hash hdir hm hbase hsegs hhash seg hseg

/-- **A piece that is committed is stored with its hash.** -/
theorem pieceStored_of_commit {index : ℕ} {env : BlockEnv} (hinfo : s.infoDict = some info)
    (hknows : s.ManagerKnows) (h : (s.validateAndCommitPiece c index env).2 = true) :
    s.PieceStored c info index := by
  unfold validateAndCommitPiece at h
  rw [hinfo] at h
  simp only [Option.bind_some] at h
  cases hhash : info.pieces[index]? with
  | none =>
      rw [hhash] at h
      cases h
  | some hash =>
      rw [hhash] at h
      simp only at h
      split at h
      · cases h
      · unfold PieceStored storedPiece
        cases hst : s.pieceStorage with
        | disk dir =>
            rw [hst] at h
            simp only [getPiecePath, hinfo, hst, hhash, Option.map_some] at h
            cases hfile : (some (pieceFile c dir hash)).bind s.disk with
            | none =>
                rw [hfile] at h
                cases h
            | some data =>
                rw [hfile] at h
                simp only at h
                split at h
                · rename_i hsha
                  exact ⟨hash, data, hhash, hfile, hsha⟩
                · cases h
        | inFile =>
            rw [hst] at h
            cases hm : s.pieceManager with
            | custom =>
                rw [hm] at h
                cases h
            | default m =>
                rw [hm] at h
                simp only at h
                cases hread : m.readPiece s.disk index with
                | none =>
                    rw [hread] at h
                    cases h
                | some data =>
                    rw [hread] at h
                    refine ⟨hash, data, hhash, ?_, of_decide_eq_true h⟩
                    rcases hknows m hm with hnone | hsome
                    · -- A manager without metadata reads nothing.
                      unfold FilePieceManager.readPiece at hread
                      rw [hnone] at hread
                      cases hread
                    · rw [hinfo] at hsome
                      simp only [storedIn]
                      rw [← hsome]
                      exact hread

/-! ### Blocks -/

/-- A block that overwrites nothing: its piece is not complete, is stored apart from every complete
piece, and its output files are not the cache of a complete piece nor its own. -/
structure Harmless (c : Codec H) (s : TorrentActor H) (info : Info H) (index : ℕ) : Prop where
  incomplete : s.bitfield[index]? ≠ some true
  apart : ∀ j, s.bitfield[j]? = some true → s.Apart c info index j
  output : ∀ j, j = index ∨ s.bitfield[j]? = some true → s.OutputApart c info index j

/-- Committing keeps every complete piece stored. -/
theorem AllStored.validateAndCommitPiece {index : ℕ} {env : BlockEnv} (hs : s.AllStored c)
    (hinfo : s.infoDict = some info) (hknows : s.ManagerKnows) (hharm : s.Harmless c info index) :
    (s.validateAndCommitPiece c index env).1.AllStored c := by
  have hframe := validateAndCommitPiece_eq c index env s
  intro info' j hinfo' hbit
  have hbit' : s.bitfield[j]? = some true := by
    rw [hframe] at hbit
    exact hbit
  have hsame : s.infoDict = some info' := by
    rw [hframe] at hinfo'
    exact hinfo'
  cases hinfo.symm.trans hsame
  obtain ⟨hash, data, hhash, hdata, hsha⟩ := hs info j hinfo hbit'
  refine ⟨hash, data, hhash, ?_, hsha⟩
  rw [storedPiece_validateAndCommitPiece hinfo hknows (hharm.output j (Or.inr hbit')) hhash]
  exact hdata

/-- Committing leaves the piece itself stored. -/
theorem pieceStored_commit {index : ℕ} {env : BlockEnv} (hinfo : s.infoDict = some info)
    (hknows : s.ManagerKnows) (hharm : s.Harmless c info index)
    (hc : (s.validateAndCommitPiece c index env).2 = true) :
    ∀ info', (s.validateAndCommitPiece c index env).1.infoDict = some info' →
      (s.validateAndCommitPiece c index env).1.PieceStored c info' index := by
  intro info' hinfo'
  have hsame : s.infoDict = some info' := by
    rw [validateAndCommitPiece_eq] at hinfo'
    exact hinfo'
  cases hinfo.symm.trans hsame
  obtain ⟨hash, data, hhash, hdata, hsha⟩ := pieceStored_of_commit hinfo hknows hc
  refine ⟨hash, data, hhash, ?_, hsha⟩
  rw [storedPiece_validateAndCommitPiece hinfo hknows (hharm.output index (Or.inl rfl)) hhash]
  exact hdata

omit [DecidableEq H] in
/-- A piece that is stored may be marked complete. -/
theorem AllStored.completePiece {index : ℕ} (hs : s.AllStored c)
    (hpiece : ∀ info, s.infoDict = some info → s.PieceStored c info index) :
    (s.completePiece index).AllStored c := by
  intro info j hinfo hbit
  by_cases hj : j = index
  · subst hj
    exact hpiece info hinfo
  · change (s.bitfield.set index true)[j]? = some true at hbit
    rw [List.getElem?_set_ne (Ne.symm hj)] at hbit
    exact hs info j hinfo hbit

/-- **A block that overwrites nothing keeps every complete piece stored.** -/
theorem AllStored.handleIncomingPiece (hs : s.AllStored c) (hknows : s.ManagerKnows)
    {index offset : ℕ} {block : Bytes} {env : BlockEnv}
    (hharm : ∀ info n, s.Accepts index offset block.length info n → s.Harmless c info index)
    (p : PeerId) : (s.handleIncomingPiece c p index offset block env).AllStored c := by
  have hwrite := writeBlockToStorage_eq c index offset block env.write s
  -- What is true of the files once the block has been written.
  have hwritten : ∀ {dict : Info H} {n : ℕ}, s.Accepts index offset block.length dict n →
      (s.writeBlockToStorage c index offset block env.write).1.AllStored c := by
    intro dict n ha info j hinfo hbit
    have hinfo' : s.infoDict = some info := by
      rw [hwrite] at hinfo
      exact hinfo
    have hbit' : s.bitfield[j]? = some true := by
      rw [hwrite] at hbit
      exact hbit
    cases ha.info.symm.trans hinfo'
    obtain ⟨hash, data, hhash, hdata, hsha⟩ := hs dict j hinfo' hbit'
    exact ⟨hash, data, hhash, storedPiece_writeBlockToStorage hinfo' hknows
      ((hharm dict n ha).apart j hbit') hhash hdata block env.write, hsha⟩
  -- The state in which a complete row has been dropped differs by the files alone.
  have hdropped : ∀ {u v : TorrentActor H} {n : ℕ} {dict : Info H},
      s.Accepts index offset block.length dict n →
      u = (s.writeBlockToStorage c index offset block env.write).1.recordBlock index offset n →
      v = { u.mapScheduler (·.removePieceBlocks index) with outbox := v.outbox } →
      v.AllStored c ∧ v.ManagerKnows ∧ v.infoDict = some dict ∧ v.Harmless c dict index := by
    intro u v n dict ha hu hv
    have hveq : v = { s with
        disk := (s.writeBlockToStorage c index offset block env.write).1.disk
        unflushed := (s.writeBlockToStorage c index offset block env.write).1.unflushed
        pieceScheduler := v.pieceScheduler
        outbox := v.outbox } := by
      rw [hv, hu, hwrite]
      rfl
    have hstored := hwritten ha
    have hharm' := hharm dict n ha
    rw [hwrite] at hstored
    rw [hveq]
    exact ⟨hstored, hknows, ha.info, hharm'.incomplete, hharm'.apart, hharm'.output⟩
  cases handlesBlock c s p index offset block env with
  | ignored h => exact h.allStored hs
  | unwritten ha _ h => exact h.allStored (hwritten ha)
  | recorded ha _ hu _ h =>
      refine h.allStored ?_
      rw [hu]
      exact hwritten ha
  | uncommitted ha _ hu _ hv _ h =>
      obtain ⟨hstored, hknows', hinfo, hharm'⟩ := hdropped ha hu hv
      exact h.allStored (hstored.validateAndCommitPiece hinfo hknows' hharm')
  | committed ha _ hu _ hv hc h =>
      obtain ⟨hstored, hknows', hinfo, hharm'⟩ := hdropped ha hu hv
      refine h.allStored ((hstored.validateAndCommitPiece hinfo hknows' hharm').completePiece ?_)
      exact pieceStored_commit hinfo hknows' hharm' hc

/-! ### Storage and metadata -/

omit [DecidableEq H] in
theorem allStored_of_isEmpty (h : s.isEmpty = true) : s.AllStored c := by
  intro info index _ hbit
  rw [isEmpty, List.all_eq_true] at h
  have hclear := h true (List.mem_of_getElem? hbit)
  cases hclear

omit [DecidableEq H] in
theorem SameBits.isEmpty (h : SameBits s t) : t.isEmpty = s.isEmpty := by
  rw [TorrentActor.isEmpty, TorrentActor.isEmpty, h.bitfield]

/-- The storage is configured only while no piece is complete. -/
theorem allStored_configure {m : TorrentMessage c} (hs : s.AllStored c)
    (hm : (∃ strategy created, m = .setPieceStorage strategy created) ∨
      (∃ preStarted, m = .setPieceManager preStarted) ∨
      ∃ path created, m = .setOutputPath path created) : (s.handle m).AllStored c := by
  have hsame : SameBits s (s.handle m) := by
    rcases hm with ⟨strategy, created, rfl⟩ | ⟨preStarted, rfl⟩ | ⟨path, created, rfl⟩
    · exact sameBits_setPieceStorage strategy created s
    · exact sameBits_setPieceManager preStarted s
    · exact sameBits_setOutputPath path created s
  cases hempty : s.isEmpty with
  | true => exact allStored_of_isEmpty (hsame.isEmpty.trans hempty)
  | false =>
      have hunchanged : s.handle m = s := by
        rcases hm with ⟨strategy, created, rfl⟩ | ⟨preStarted, rfl⟩ | ⟨path, created, rfl⟩
        · exact if_pos hempty
        · exact if_pos hempty
        · exact if_pos hempty
      rw [hunchanged]
      exact hs

omit [DecidableEq H] in
theorem managerKnows_leaveFailed (h : t.ManagerKnows) : t.leaveFailed.ManagerKnows := by
  unfold leaveFailed
  split
  · exact h
  · exact h

omit [DecidableEq H] in
theorem ManagerKnows.setPieceStorage (hs : s.ManagerKnows) (strategy : PieceStorageStrategy)
    (created : Bool) : (s.setPieceStorage strategy created).ManagerKnows := by
  unfold TorrentActor.setPieceStorage
  split
  · exact hs
  · cases strategy with
    | inFile =>
        simp only
        split
        · exact hs
        · exact managerKnows_leaveFailed hs
    | disk dir =>
        simp only
        split
        · exact managerKnows_leaveFailed hs
        · exact hs

omit [DecidableEq H] in
theorem ManagerKnows.setPieceManager (hs : s.ManagerKnows) (preStarted : Bool) :
    (s.setPieceManager preStarted).ManagerKnows := by
  unfold TorrentActor.setPieceManager
  split
  · exact hs
  · split
    · exact hs
    · split
      · exact hs
      · exact fun m hm => nomatch hm

omit [DecidableEq H] in
theorem ManagerKnows.setOutputPath (hs : s.ManagerKnows) (path : Path) (created : Bool) :
    (s.setOutputPath path created).ManagerKnows := by
  unfold TorrentActor.setOutputPath
  split
  · exact hs
  · cases hm : s.pieceManager with
    | custom =>
        simp only
        exact hs
    | default manager =>
        simp only
        split
        · refine managerKnows_leaveFailed ?_
          intro m hm'
          cases hm'
          exact hs manager hm
        · exact hs

/-- Metadata is resolved into a bitfield without complete pieces. -/
theorem allStored_infoBytes (hs : s.AllStored c) (hknows : s.ManagerKnows) (bytes : Bytes)
    (env : BroadcastEnv) :
    (s.infoBytes c bytes env).AllStored c ∧ (s.infoBytes c bytes env).ManagerKnows := by
  rcases infoBytes_cases c bytes env s with heq | ⟨info, hnone, -, -, heq⟩
  · rw [heq]
    exact ⟨hs, hknows⟩
  · rw [heq]
    refine ⟨?_, ?_⟩
    · refine allStored_of_isEmpty (List.all_eq_true.2 fun bit hbit => ?_)
      rw [List.eq_of_mem_replicate hbit]
      rfl
    · intro m hm
      rcases hknows m hm with h | h
      · exact Or.inl h
      · exact Or.inl (h.trans hnone)

/-! ### Restoring -/

/-- A snapshot that the engine has verified in full against the files, restored into the actor it
has started for it: same storage, same output folder, and a manager that knows at most the metadata
of the snapshot. -/
structure RestoredInFull (c : Codec H) (s : TorrentActor H) (snap : TorrentSnapshot H) : Prop where
  verified : ∃ saved folder, TorrentSnapshot.reconcileStorage c s.disk folder .full saved = .ok snap
  storage : snap.pieceStorage = s.pieceStorage
  manager : ∃ m, s.pieceManager = .default m ∧ m.path = snap.outputPath ∧
    (m.info = none ∨ m.info = snap.resolvedInfo)

/-- **Every piece of a snapshot that was verified in full is stored.** -/
theorem RestoredInFull.allStored {snap : TorrentSnapshot H} (h : RestoredInFull c s snap)
    (hown : snap.metainfo = s.metainfo) : (s.restoreSnapshot snap).AllStored c := by
  obtain ⟨⟨saved, folder, hrec⟩, hstorage, m, hm, hpath, -⟩ := h
  have hsaved := TorrentSnapshot.reconcileStorage_eq hrec
  intro info index hinfo hbit
  rw [infoDict_restoreSnapshot snap hown] at hinfo
  have hinfo' : saved.resolvedInfo = some info := by
    rw [hsaved] at hinfo
    exact hinfo
  have hmode : RestoreVerification.full ≠ .trustSnapshot := nofun
  have hstored := TorrentSnapshot.isPieceStored_of_reconcileStorage hmode hinfo' hrec hbit
  have hstorage' : saved.pieceStorage = s.pieceStorage := by
    rw [← hstorage, hsaved]
  have hpath' : saved.outputPath = m.path := by
    rw [hpath, hsaved]
  unfold TorrentSnapshot.isPieceStored at hstored
  cases hhash : info.pieces[index]? with
  | none =>
      rw [hhash] at hstored
      cases hst : saved.pieceStorage <;> rw [hst] at hstored <;> cases hstored
  | some hash =>
      rw [hhash, hstorage'] at hstored
      unfold PieceStored storedPiece
      change ∃ hash data, info.pieces[index]? = some hash ∧
        storedIn c s.pieceStorage s.pieceManager s.disk info index hash = some data ∧
        c.sha1 data = hash
      cases hst : s.pieceStorage with
      | disk dir =>
          rw [hst] at hstored
          simp only [Except.ok.injEq, Option.any_eq_true] at hstored
          obtain ⟨data, hdata, hsha⟩ := hstored
          exact ⟨hash, data, hhash, hdata, of_decide_eq_true hsha⟩
      | inFile =>
          rw [hst, hpath'] at hstored
          simp only at hstored
          cases hread : FilePieceManager.readPiece ⟨m.path, some info⟩ s.disk index with
          | none =>
              rw [hread] at hstored
              cases hstored
          | some data =>
              rw [hread] at hstored
              simp only [reduceCtorEq, if_false, Except.ok.injEq, decide_eq_true_eq] at hstored
              refine ⟨hash, data, hhash, ?_, hstored⟩
              rw [hm]
              exact hread

omit [DecidableEq H] in
theorem managerKnows_restoreSnapshot {snap : TorrentSnapshot H} {m : FilePieceManager H}
    (hm : s.pieceManager = .default m) (hknows : m.info = none ∨ m.info = snap.resolvedInfo)
    (hown : snap.metainfo = s.metainfo) : (s.restoreSnapshot snap).ManagerKnows := by
  intro m' hm'
  cases hm.symm.trans hm'
  rw [infoDict_restoreSnapshot snap hown]
  exact hknows

end TorrentActor

/-! ### Runs -/

section Runs

variable [DecidableEq H] {c : Codec H}

/-- A block that may overwrite verified data: it passes the checks, and its piece is complete, or
is stored or written out where a complete piece is stored, or is written out over its own cache.  What is
written late overwrites verified data if it changes what is stored of a complete piece. -/
def Overwrites (s : TorrentActor H) (i : TorrentActor.Input c) : Prop :=
  match i.message with
  | .incomingPiece _ index offset block _ => ∃ info n,
      (s.next i.check).Accepts index offset block.length info n ∧
      ¬ (s.next i.check).Harmless c info index
  | .background n k => ∃ info index hash, (s.next i.check).infoDict = some info ∧
      (s.next i.check).bitfield[index]? = some true ∧ info.pieces[index]? = some hash ∧
      ((s.next i.check).writeLate n k).storedPiece c info index hash ≠
        (s.next i.check).storedPiece c info index hash
  | _ => False

/-- A snapshot is restored that was not verified in full for this actor. -/
def RestoresUnverified (s : TorrentActor H) (i : TorrentActor.Input c) : Prop :=
  match i.message with
  | .restoreSnapshot v => ¬ (s.next i.check).RestoredInFull c v.snapshot
  | _ => False

namespace TorrentActor

variable {s : TorrentActor H}

/-- What holds of the files in every run without overwriting. -/
structure StorageInv (c : Codec H) (s : TorrentActor H) : Prop where
  stored : s.AllStored c
  knows : s.ManagerKnows

omit [DecidableEq H] in
theorem SameData.storageInv {t : TorrentActor H} (h : SameData s t) (hs : s.StorageInv c) :
    t.StorageInv c :=
  ⟨h.allStored hs.stored, h.managerKnows hs.knows⟩

/-- A block does not tell the manager anything new. -/
theorem ManagerKnows.handleIncomingPiece (hs : s.ManagerKnows) (p : PeerId) (index offset : ℕ)
    (block : Bytes) (env : BlockEnv) :
    (s.handleIncomingPiece c p index offset block env).ManagerKnows := by
  obtain ⟨u, hsame, hu⟩ := (handlesBlock c s p index offset block env).frame
  refine hsame.managerKnows ?_
  rw [hu]
  exact hs

omit [DecidableEq H] in
/-- What is written late keeps every complete piece stored, if it does not change one. -/
theorem StorageInv.writeLate (hs : s.StorageInv c) {n k : ℕ}
    (hsame : ∀ info index hash, s.infoDict = some info → s.bitfield[index]? = some true →
      info.pieces[index]? = some hash →
      (s.writeLate n k).storedPiece c info index hash = s.storedPiece c info index hash) :
    (s.writeLate n k).StorageInv c := by
  have hframe := writeLate_eq n k s
  refine ⟨fun info index hinfo hbit => ?_, ?_⟩
  · rw [hframe] at hinfo hbit
    obtain ⟨hash, data, hhash, hdata, hsha⟩ := hs.stored info index hinfo hbit
    exact ⟨hash, data, hhash, (hsame info index hash hinfo hbit hhash).trans hdata, hsha⟩
  · rw [hframe]
    exact hs.knows

/-- One step without overwriting keeps every complete piece stored. -/
theorem StorageInv.step (hs : s.StorageInv c) {i : Input c} (hover : ¬ Overwrites s i)
    (hfull : ¬ RestoresUnverified s i) (hown : s.RestoresOwn i.message) :
    (s.step i).StorageInv c := by
  have hnext := sameData_next i.check s
  have hs' : (s.next i.check).StorageInv c := hnext.storageInv hs
  have hmeta := hnext.metainfo
  unfold Overwrites at hover
  unfold RestoresUnverified at hfull
  unfold TorrentActor.step
  cases hm : i.message with
  | incomingPiece p index offset block env =>
      rw [hm] at hover
      refine ⟨hs'.stored.handleIncomingPiece hs'.knows ?_ p,
        hs'.knows.handleIncomingPiece p index offset block env⟩
      intro info n ha
      by_contra hharm
      exact hover ⟨info, n, ha, hharm⟩
  | infoBytes bytes env =>
      obtain ⟨hstored, hknows⟩ := allStored_infoBytes hs'.stored hs'.knows bytes env
      exact ⟨hstored, hknows⟩
  | restoreSnapshot v =>
      rw [hm] at hfull hown
      have hfull' : (s.next i.check).RestoredInFull c v.snapshot := Classical.not_not.1 hfull
      have hown' : v.snapshot.metainfo = (s.next i.check).metainfo := by
        rw [hmeta]
        exact hown
      obtain ⟨m, hman, -, hknows⟩ := hfull'.manager
      exact ⟨hfull'.allStored hown', managerKnows_restoreSnapshot hman hknows hown'⟩
  | setPieceStorage strategy created =>
      exact ⟨allStored_configure hs'.stored (Or.inl ⟨strategy, created, rfl⟩),
        hs'.knows.setPieceStorage strategy created⟩
  | setPieceManager preStarted =>
      exact ⟨allStored_configure hs'.stored (Or.inr (Or.inl ⟨preStarted, rfl⟩)),
        hs'.knows.setPieceManager preStarted⟩
  | setOutputPath path created =>
      exact ⟨allStored_configure hs'.stored (Or.inr (Or.inr ⟨path, created, rfl⟩)),
        hs'.knows.setOutputPath path created⟩
  | background n k =>
      rw [hm] at hover
      refine hs'.writeLate fun info index hash hinfo hbit hhash => ?_
      by_contra hchanged
      exact hover ⟨info, index, hash, hinfo, hbit, hhash, hchanged⟩
  | _ =>
      refine (sameData_handle _ ?_).storageInv hs'
      exact trivial

omit [DecidableEq H] in
theorem storageInv_onStart {args : Args H} {disk : FileStore Path}
    (h : onStart c args disk = some s) : s.StorageInv c := by
  unfold onStart at h
  obtain ⟨hash, -, rfl⟩ := Option.map_eq_some_iff.1 h
  refine ⟨allStored_of_isEmpty (List.all_eq_true.2 fun bit hbit => ?_), ?_⟩
  · rw [List.eq_of_mem_replicate hbit]
    rfl
  · intro m hm
    cases hm
    cases hmeta : args.metainfo with
    | torrent info => exact Or.inr (by simp [infoDict])
    | magnetUri xt => exact Or.inl rfl

/-- **In every run without overwriting the bytes stored of every complete piece have its hash.** -/
theorem storageInv_of_reach
    (h : (torrentSystem c).Reach (fun s i => ¬ Overwrites s i ∧ ¬ RestoresUnverified s i) s) :
    s.StorageInv c := by
  refine h.invariant ?_ ?_
  · rintro s ⟨args, disk, hstart⟩
    exact storageInv_onStart hstart
  · rintro s i t hs ⟨hover, hfull⟩ ⟨hown, rfl⟩
    exact hs.step hover hfull hown

end TorrentActor

/-! ### Reading -/

/-- The metadata is of some data: each hash is the hash of as many bytes as its piece has. -/
def DescribesData (c : Codec H) (info : Info H) : Prop :=
  ∀ index hash, info.pieces[index]? = some hash → ∃ data, c.sha1 data = hash ∧
    data.length = concretePieceLength info.pieceCount info.pieceLength.toNat info.totalLength index

omit [DecidableEq H] in
/-- The segments of a piece have its length in all. -/
theorem sum_segments_eq {info : Info H} (hcons : info.Consistent) {index : ℕ}
    (hindex : index < info.pieceCount) {segs : List (Segment Path)}
    (h : pieceToPaths (some info) index = .ok segs) :
    (segs.map Segment.length).sum = concretePieceLength info.pieceCount info.pieceLength.toNat
      info.totalLength index := by
  have hpos := hcons.pos
  have hcount := hcons.count
  obtain ⟨-, hsum⟩ := sum_pieceToPaths h
  obtain ⟨hle, hleft⟩ := sub_mul_divCeil_pred (a := info.totalLength) hpos (by omega)
  rw [← hcount] at hle hleft
  have hlast : (if info.totalLength % info.pieceLength.toNat = 0 then info.pieceLength.toNat
      else info.totalLength % info.pieceLength.toNat) ≤ info.pieceLength.toNat := by
    split
    · exact Nat.le_refl _
    · exact Nat.le_of_lt (Nat.mod_lt _ hpos)
  rw [hsum]
  unfold concretePieceLength lastPieceLength
  generalize info.pieceLength.toNat = pl at *
  generalize info.totalLength = total at *
  rw [Nat.add_mul, Nat.one_mul]
  split
  · rename_i hi
    have hstart : index * pl = pl * (info.pieceCount - 1) := by
      rw [hi, Nat.mul_comm]
    rw [hstart]
    omega
  · rename_i hi
    -- A piece before the last ends where the next one starts, inside the data.
    have hnext : (index + 1) * pl ≤ pl * (info.pieceCount - 1) := by
      rw [Nat.mul_comm pl]
      exact Nat.mul_le_mul_right pl (by omega)
    rw [Nat.add_mul, Nat.one_mul] at hnext
    omega

/-- The files can be read: those of the cache always, the output files once the manager has been
told the metadata. -/
def CanRead (s : TorrentActor H) : Prop :=
  s.pieceStorage = .inFile → ∀ m, s.pieceManager = .default m → m.info ≠ none

/-- What reading the whole of a complete piece answers has its hash, and where the files can be read
there is an answer. -/
def Verified (c : Codec H) (s : TorrentActor H) : Prop :=
  ∀ info index hash, s.infoDict = some info → s.bitfield[index]? = some true →
    info.pieces[index]? = some hash →
    (∀ data, s.readPieceBlock c index 0 (concretePieceLength info.pieceCount
      info.pieceLength.toNat info.totalLength index) = some data → c.sha1 data = hash) ∧
    (CanRead s → ∃ data, s.readPieceBlock c index 0 (concretePieceLength info.pieceCount
      info.pieceLength.toNat info.totalLength index) = some data)

namespace TorrentActor

variable {s : TorrentActor H}

omit [DecidableEq H] in
/-- Reading all of a byte string. -/
theorem readAt_all (data : Bytes) : readAt data 0 data.length = some data := by
  unfold readAt
  split
  · rename_i hlen
    rw [List.eq_nil_of_length_eq_zero hlen]
  · rw [if_pos (by omega), List.drop_zero, List.take_length]

omit [DecidableEq H] in
/-- A manager without metadata answers nothing, or no bytes if none are asked for. -/
theorem readPieceRange_of_no_info {m : FilePieceManager H} {disk : FileStore Path}
    {index length : ℕ} {found : Bytes} (hnone : m.info = none)
    (h : m.readPieceRange disk index 0 length = some found) : length = 0 ∧ found = [] := by
  unfold FilePieceManager.readPieceRange pieceRangeSegments at h
  rw [hnone] at h
  cases hpath : m.path with
  | none =>
      rw [hpath] at h
      cases h
  | some base =>
      rw [hpath] at h
      simp only at h
      split at h
      · rename_i segs hsegs
        split at hsegs
        · rename_i hzero
          cases hsegs
          cases h
          exact ⟨hzero, rfl⟩
        · cases hsegs
      · cases h

omit [DecidableEq H] in
/-- A manager with the metadata reads what is stored of a piece. -/
theorem readPieceRange_of_stored {info : Info H} (hcons : info.Consistent) {m : FilePieceManager H}
    (hsome : m.info = some info) {disk : FileStore Path} {index : ℕ}
    (hindex : index < info.pieceCount) {data : Bytes} (h : m.readPiece disk index = some data) :
    m.readPieceRange disk index 0 (concretePieceLength info.pieceCount info.pieceLength.toNat
      info.totalLength index) = some data := by
  unfold FilePieceManager.readPiece at h
  rw [hsome] at h
  cases hsegs : pieceToPaths (some info) index with
  | err e => simp [hsegs] at h
  | panic => simp [hsegs] at h
  | ok segs =>
      simp only [hsegs] at h
      rw [sum_segments_eq hcons hindex hsegs] at h
      exact h

omit [DecidableEq H] in
/-- What reading the whole of a piece answers, if it answers, is what is stored. -/
theorem readPieceBlock_of_stored {info : Info H} {index : ℕ} {hash : H} {data : Bytes}
    (hdict : s.infoDict = some info) (hcons : info.Consistent) (hknows : s.ManagerKnows)
    (hhash : info.pieces[index]? = some hash)
    (hstored : s.storedPiece c info index hash = some data)
    (hlen : data.length = concretePieceLength info.pieceCount info.pieceLength.toNat
      info.totalLength index) :
    (∀ found, s.readPieceBlock c index 0 (concretePieceLength info.pieceCount
      info.pieceLength.toNat info.totalLength index) = some found → found = data) ∧
    (CanRead s → s.readPieceBlock c index 0 (concretePieceLength info.pieceCount
      info.pieceLength.toNat info.totalLength index) = some data) := by
  have hindex : index < info.pieceCount := (List.getElem?_eq_some_iff.1 hhash).1
  unfold storedPiece at hstored
  unfold readPieceBlock
  cases hst : s.pieceStorage with
  | disk dir =>
      rw [hst] at hstored
      have hfile : s.disk (pieceFile c dir hash) = some data := hstored
      have hall : s.disk.read (pieceFile c dir hash) 0 (concretePieceLength info.pieceCount
          info.pieceLength.toNat info.totalLength index) = some data := by
        rw [FileStore.read, hfile, ← hlen]
        exact readAt_all data
      simp only [getPiecePath, hdict, hst, hhash, Option.map_some]
      rw [hall]
      exact ⟨fun found h => (Option.some.inj h).symm, fun _ => rfl⟩
  | inFile =>
      rw [hst] at hstored
      cases hm : s.pieceManager with
      | custom =>
          rw [hm] at hstored
          cases hstored
      | default m =>
          rw [hm] at hstored
          rcases hknows m hm with hnone | hsome
          · refine ⟨?_, fun hcan => absurd hnone (hcan hst m hm)⟩
            intro found hfound
            obtain ⟨hzero, rfl⟩ := readPieceRange_of_no_info hnone hfound
            rw [hzero] at hlen
            exact (List.eq_nil_of_length_eq_zero hlen).symm
          · rw [hdict] at hsome
            have hpiece : m.readPiece s.disk index = some data := by
              rw [show m = ⟨m.path, some info⟩ by rw [← hsome]]
              exact hstored
            have hread := readPieceRange_of_stored hcons hsome hindex hpiece
            exact ⟨fun found h => Option.some.inj (h.symm.trans hread), fun _ => hread⟩

omit [DecidableEq H] in
theorem verified_of_storageInv (hsha : Function.Injective c.sha1) (hs : s.StorageInv c)
    (hinfo : ∀ info, s.infoDict = some info → info.Consistent ∧ DescribesData c info) :
    Verified c s := by
  intro info index hash hdict hbit hhash
  obtain ⟨hcons, hdata⟩ := hinfo info hdict
  obtain ⟨hash', data, hhash', hstored, hmatch⟩ := hs.stored info index hdict hbit
  cases hhash.symm.trans hhash'
  -- no other bytes have this hash, so what is stored has the length of the piece
  have hlen : data.length = concretePieceLength info.pieceCount info.pieceLength.toNat
      info.totalLength index := by
    obtain ⟨data', hmatch', hlen'⟩ := hdata index hash hhash
    rw [hsha (hmatch.trans hmatch'.symm)]
    exact hlen'
  obtain ⟨hsame, hread⟩ := readPieceBlock_of_stored hdict hcons hs.knows hhash hstored hlen
  refine ⟨?_, fun hcan => ⟨data, hread hcan⟩⟩
  intro found hfound
  rw [hsame found hfound]
  exact hmatch

end TorrentActor

/-- **Verified data stays verified, in every run in which no block overwrites verified data and
snapshots are restored after full verification.** -/
theorem verified_unless_overwritten (hsha : Function.Injective c.sha1) {s : TorrentActor H}
    (h : (torrentSystem c).Reach (fun s i => ¬ Overwrites s i ∧ ¬ RestoresUnverified s i) s)
    (hinfo : ∀ info, s.infoDict = some info → info.Consistent ∧ DescribesData c info) :
    Verified c s :=
  TorrentActor.verified_of_storageInv hsha (TorrentActor.storageInv_of_reach h) hinfo

/-- The metadata of the sample torrent is in order. -/
theorem Sample.info_describes : Sample.info.Consistent ∧ DescribesData Sample.codec Sample.info := by
  refine ⟨⟨by decide, by decide⟩, ?_⟩
  intro index hash hhash
  match index, hhash with
  | 0, hhash =>
      cases hhash
      exact ⟨[7], rfl, by decide⟩

/-- The sample torrent when its only block has been received. -/
def Sample.complete : TorrentActor Bytes :=
  (Sample.fromFile .inFile).step
    (Sample.input (.incomingPiece Sample.peer 0 0 [7] Sample.blockEnv))

theorem verified_sample :
    Sample.complete.bitfield = [true] ∧ Verified Sample.codec Sample.complete := by
  refine ⟨by decide +kernel, verified_unless_overwritten Function.injective_id
    (Sample.reach_step (.incomingPiece Sample.peer 0 0 [7] Sample.blockEnv)
      (.init (Sample.init_fromFile .inFile)) ⟨?_, id⟩ trivial) ?_⟩
  · rintro ⟨info, n, -, hharm⟩
    -- No piece is complete yet, and nothing is cached.
    have hclear : ∀ j : ℕ, (Sample.fromFile .inFile).bitfield[j]? ≠ some true := by
      intro j hj
      have hmem := List.mem_of_getElem? hj
      simp [Sample.fromFile, Sample.fromInfo] at hmem
    refine hharm ⟨hclear 0, fun j hj => absurd hj (hclear j), ?_⟩
    intro j _ dir m base segs hash hst
    cases hst
  · intro info hdict
    cases hdict
    exact Sample.info_describes

/-- A request that is stale is given to another peer, which answers; then the first one answers
too, with another byte. -/
def Sample.lateAnswer : List (TorrentMessage Sample.codec) :=
  [.peerConnected (some Sample.otherPeer) 1,
    .peerReady Sample.otherPeer [true] true Sample.fillEnv,
    .rechoke ⟨20, [], fun _ => true, ⟨[Sample.otherPeer], fun _ => Sample.fillEnv⟩⟩,
    .incomingPiece Sample.otherPeer 0 0 [7] Sample.blockEnv,
    .incomingPiece Sample.peer 0 0 [8] Sample.blockEnv]

/-- The late answer is written over the verified piece. -/
theorem late_answer_overwrites_verified :
    Function.Injective Sample.codec.sha1 ∧
    ∃ s info, (torrentSystem Sample.codec).Reach (fun _ _ => True) s ∧
      s.infoDict = some info ∧ info.Consistent ∧ DescribesData Sample.codec info ∧
      ¬ Verified Sample.codec s := by
  refine ⟨Function.injective_id, Sample.run (Sample.downloading .inFile) Sample.lateAnswer,
    Sample.info, Sample.reach_run Sample.lateAnswer (Sample.reach_downloading .inFile) ?_, rfl,
    Sample.info_describes.1, Sample.info_describes.2, ?_⟩
  · intro m hm s
    simp only [Sample.lateAnswer, List.mem_cons, List.not_mem_nil, or_false] at hm
    rcases hm with rfl | rfl | rfl | rfl | rfl <;> trivial
  · intro hverified
    have hread := (hverified Sample.info 0 [7] rfl (by decide +kernel) rfl).1 [8]
      (by decide +kernel)
    exact absurd hread (by decide)

end Runs

end Tortillas
