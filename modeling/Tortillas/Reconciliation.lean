/-
**Reconciliation only demotes.**

Before a snapshot is restored, `reconcile_storage` looks at the files the snapshot refers to.  A
piece or a block that is not found there is no longer taken to be received; nothing else changes.
What stays marked has been found: after full verification a complete piece is stored with its hash,
and after either verification a received block is a range of bytes that can be read.

The store has regular files only.  A directory at the path of a piece, whose size the code would take for that of a file,
is left out.

Main definitions:

* `Demotes` — bits of which some have been cleared;
* `TorrentSnapshot.storedPiece`, `TorrentSnapshot.HasBytes` — what the storage a snapshot names
  has of a piece.

Main results:

* `TorrentSnapshot.hasBytes_of_isBlockStored` — a block that is found is there in full, though its
  place is computed with operations that stop at the largest number;
* `reconcile_only_demotes` — **reconciliation clears bits, and only those of what is not there**.
-/

import Tortillas.TorrentActor

set_option relaxedAutoImplicit false
set_option autoImplicit false

namespace Tortillas

/-- Bits of which some have been cleared. -/
def Demotes (bits found : List Bool) : Prop :=
  found.length = bits.length ∧ ∀ i : ℕ, found[i]? = some true → bits[i]? = some true

theorem Demotes.refl (bits : List Bool) : Demotes bits bits := ⟨rfl, fun _ h => h⟩

/-- Bit by bit. -/
theorem demotes_of_forall₂ {bits found : List Bool}
    (h : List.Forall₂ (fun b b' => b = false → b' = false) bits found) : Demotes bits found := by
  refine ⟨h.length_eq.symm, ?_⟩
  induction h with
  | nil =>
      intro i hi
      simp at hi
  | @cons b b' bits found hb _ ih =>
      intro i hi
      cases i with
      | zero =>
          cases b with
          | true => rfl
          | false => simp [hb rfl] at hi
      | succ i => simpa using ih i (by simpa using hi)

namespace TorrentSnapshot

variable {H : Type} [DecidableEq H] {c : Codec H} {fs : FileStore Path} {folder : Option Bool}
  {mode : RestoreVerification} {snap found : TorrentSnapshot H} {info : Info H}

/-- The bytes the storage has for the whole of a piece: its cache file, or its place in the output
files. -/
def storedPiece (c : Codec H) (fs : FileStore Path) (snap : TorrentSnapshot H) (info : Info H)
    (index : ℕ) (hash : H) : Option Bytes :=
  match snap.pieceStorage with
  | .disk dir => fs (pieceFile c dir hash)
  | .inFile => FilePieceManager.readPiece ⟨snap.outputPath, some info⟩ fs index

/-- The storage has a range of the bytes of a piece. -/
def HasBytes (c : Codec H) (fs : FileStore Path) (snap : TorrentSnapshot H) (info : Info H)
    (index : ℕ) (hash : H) (offset length : ℕ) : Prop :=
  match snap.pieceStorage with
  | .disk dir => ∃ data, fs (pieceFile c dir hash) = some data ∧ offset + length ≤ data.length
  | .inFile => ∃ data, FilePieceManager.readPieceRange ⟨snap.outputPath, some info⟩ fs index offset
      length = some data ∧ data.length = length

/-! ### What is found -/

/-- A piece that is found by full verification is stored with its hash. -/
theorem storedPiece_of_isPieceStored {index : ℕ}
    (h : isPieceStored c fs .full snap info index = .ok true) :
    ∃ hash data, info.pieces[index]? = some hash ∧
      snap.storedPiece c fs info index hash = some data ∧ c.sha1 data = hash := by
  unfold isPieceStored at h
  unfold storedPiece
  cases hhash : info.pieces[index]? with
  | none =>
      rw [hhash] at h
      split at h
      all_goals first | cases h | simp_all
  | some hash =>
      rw [hhash] at h
      cases hstorage : snap.pieceStorage with
      | disk dir =>
          simp only [hstorage, Except.ok.injEq, Option.any_eq_true, decide_eq_true_eq] at h
          obtain ⟨data, hdata, hsha⟩ := h
          exact ⟨hash, data, rfl, hdata, hsha⟩
      | inFile =>
          simp only [hstorage] at h
          cases hread : FilePieceManager.readPiece ⟨snap.outputPath, some info⟩ fs index with
          | none =>
              rw [hread] at h
              cases h
          | some data =>
              rw [hread] at h
              simp only [reduceCtorEq, if_false, Except.ok.injEq, decide_eq_true_eq] at h
              exact ⟨hash, data, rfl, rfl, h⟩

omit [DecidableEq H] in
theorem snapshotPieceLength_le {index length : ℕ} (h : snapshotPieceLength info index = .ok length) :
    length ≤ usizeMax := by
  have htotal := info.totalLength_le
  have hpiece : info.pieceLength.toNat < 2 ^ 64 := info.pieceLength.toNat_lt
  unfold snapshotPieceLength at h
  simp only at h
  split at h
  · cases h
  · split at h
    · cases h
      omega
    · cases h
      unfold usizeMax
      omega

omit [DecidableEq H] in
/-- A block that is found is there in full.  Its place is below the length of the piece, so that
nothing stops at the largest number. -/
theorem hasBytes_of_isBlockStored {index length j : ℕ} (hle : length ≤ usizeMax)
    (hj : j * blockSize < length) (h : isBlockStored c fs snap info index length j = true) :
    ∃ hash, info.pieces[index]? = some hash ∧
      snap.HasBytes c fs info index hash (j * blockSize) (min (length - j * blockSize) blockSize) := by
  have hoffset : saturatingMul j blockSize = j * blockSize := saturatingMul_of_le (by omega)
  have hend : saturatingAdd (j * blockSize) (min (length - j * blockSize) blockSize) =
      j * blockSize + min (length - j * blockSize) blockSize := Nat.min_eq_left (by omega)
  unfold isBlockStored at h
  unfold HasBytes
  rw [hoffset] at h
  simp only [hend] at h
  cases hhash : info.pieces[index]? with
  | none =>
      rw [hhash] at h
      split at h
      all_goals first | cases h | simp_all
  | some hash =>
      rw [hhash] at h
      refine ⟨hash, rfl, ?_⟩
      cases hstorage : snap.pieceStorage with
      | disk dir =>
          simp only [hstorage, Option.any_eq_true, decide_eq_true_eq] at h
          exact h
      | inFile =>
          simp only [hstorage, Option.any_eq_true, decide_eq_true_eq] at h
          exact h

/-! ### Rows -/

omit [DecidableEq H] in
/-- What a row that has been looked at is: its bits have been asked about. -/
theorem reconcileEntry_ok {entry row : PieceBlockSnapshot}
    (h : reconcileEntry c fs snap info entry = .ok row) :
    ∃ length, snapshotPieceLength info entry.pieceIndex = .ok length ∧
      row.pieceIndex = entry.pieceIndex ∧
      reconcileBits (fun j => .ok (isBlockStored c fs snap info entry.pieceIndex length j))
        entry.blocks 0 = .ok row.blocks := by
  unfold reconcileEntry at h
  cases hlen : snapshotPieceLength info entry.pieceIndex with
  | error e =>
      rw [hlen] at h
      cases h
  | ok length =>
      rw [hlen] at h
      cases hbits : reconcileBits
          (fun j => .ok (isBlockStored c fs snap info entry.pieceIndex length j)) entry.blocks 0 with
      | error e =>
          simp only [bind, Except.bind, hbits] at h
          cases h
      | ok blocks =>
          simp only [bind, Except.bind, hbits] at h
          cases h
          exact ⟨length, rfl, rfl, hbits⟩

/-- **Every row that is left was there before**, and what is still marked in it has been found. -/
theorem row_of_reconcileStorage (h : snap.reconcileStorage c fs folder mode = .ok found)
    {row : PieceBlockSnapshot} (hrow : row ∈ found.blockMap) :
    (∃ old ∈ snap.blockMap, row.pieceIndex = old.pieceIndex ∧ Demotes old.blocks row.blocks) ∧
    (mode ≠ .trustSnapshot → ∀ info, snap.resolvedInfo = some info → ∃ length,
      snapshotPieceLength info row.pieceIndex = .ok length ∧ ∀ j, row.blocks[j]? = some true →
        isBlockStored c fs snap info row.pieceIndex length j = true) := by
  rcases reconcileStorage_cases h with
    ⟨rfl, hcase⟩ | ⟨info, bits, entries, hinfo, -, hentries, rfl⟩
  · refine ⟨⟨row, hrow, rfl, Demotes.refl _⟩, ?_⟩
    intro hmode info hinfo
    rcases hcase with htrust | hnone
    · exact absurd htrust hmode
    · cases hnone.symm.trans hinfo
  · have hrows := FieldCodec.mapM_ok_iff.1 hentries
    obtain ⟨i, hi, rfl⟩ := List.getElem_of_mem (List.mem_of_mem_filter hrow)
    have hi' : i < snap.blockMap.length := hrows.length_eq ▸ hi
    have hentry : reconcileEntry c fs snap info snap.blockMap[i] = .ok entries[i] := hrows.get hi' hi
    obtain ⟨length, hlength, hindex, hbits⟩ := reconcileEntry_ok hentry
    refine ⟨⟨_, List.getElem_mem hi', hindex, demotes_of_forall₂ (reconcileBits_spec hbits)⟩, ?_⟩
    rintro - info' hinfo'
    cases hinfo.symm.trans hinfo'
    refine ⟨length, hindex ▸ hlength, ?_⟩
    intro j hj
    have hstored := stored_of_reconcileBits hbits hj
    rw [Nat.zero_add, Except.ok.injEq, ← hindex] at hstored
    exact hstored

end TorrentSnapshot

open TorrentSnapshot in
/-- **Reconciliation only demotes, soundly**, and leaves a snapshot that is trusted as it is. -/
theorem reconcile_only_demotes {H : Type} [DecidableEq H] {c : Codec H}
    (v : ValidatedTorrentSnapshot c) {fs : FileStore Path} {folder : Option Bool} :
    v.snapshot.reconcileStorage c fs folder .trustSnapshot = .ok v.snapshot ∧
    ∀ mode found, v.snapshot.reconcileStorage c fs folder mode = .ok found →
    found = { v.snapshot with bitfield := found.bitfield, blockMap := found.blockMap } ∧
    Demotes v.snapshot.bitfield found.bitfield ∧
    (∀ row ∈ found.blockMap, ∃ old ∈ v.snapshot.blockMap,
      row.pieceIndex = old.pieceIndex ∧ Demotes old.blocks row.blocks) ∧
    (∀ index, v.snapshot.bitfield[index]? = some true →
      ∀ row ∈ found.blockMap, row.pieceIndex ≠ index) ∧
    found.validate c = .ok () ∧
    (mode = .full → ∀ index, found.bitfield[index]? = some true →
      ∃ info hash data, found.resolvedInfo = some info ∧ info.pieces[index]? = some hash ∧
        found.storedPiece c fs info index hash = some data ∧ c.sha1 data = hash) ∧
    (mode ≠ .trustSnapshot → ∀ row ∈ found.blockMap, ∀ j, row.blocks[j]? = some true →
      ∃ info hash length, found.resolvedInfo = some info ∧
        info.pieces[row.pieceIndex]? = some hash ∧
        snapshotPieceLength info row.pieceIndex = .ok length ∧ j * blockSize < length ∧
        found.HasBytes c fs info row.pieceIndex hash (j * blockSize)
          (min (length - j * blockSize) blockSize)) := by
  have htrust : v.snapshot.reconcileStorage c fs folder .trustSnapshot = .ok v.snapshot := if_pos rfl
  refine ⟨htrust, fun mode found h => ?_⟩
  have hfound := v.valid.reconcileStorage h
  have heq := reconcileStorage_eq h
  have hinfo : found.resolvedInfo = v.snapshot.resolvedInfo := by
    rw [heq]
    rfl
  have hbits : Demotes v.snapshot.bitfield found.bitfield := by
    rcases reconcileStorage_cases h with ⟨rfl, -⟩ | ⟨info, bits, entries, -, hbits, -, rfl⟩
    · exact Demotes.refl _
    · exact demotes_of_forall₂ (reconcileBits_spec hbits)
  refine ⟨heq, hbits, fun row hrow => (row_of_reconcileStorage h hrow).1, ?_,
    (validate_ok_iff c found).2 hfound, ?_, ?_⟩
  · -- a complete piece had no row
    rintro index hindex row hrow rfl
    obtain ⟨old, hold, hpiece, -⟩ := (row_of_reconcileStorage h hrow).1
    have hclear := (v.valid.blocks old hold).incomplete
    rw [List.getD_eq_getElem?_getD, ← hpiece, hindex] at hclear
    cases hclear
  · -- the bit of a piece stays only when the piece was read and its hash agreed
    rintro rfl index hindex
    have hlt : index < (v.snapshot.resolvedInfo.map Info.pieceCount).getD 0 := by
      rw [← v.valid.bitfield]
      obtain ⟨hlt, -⟩ := List.getElem?_eq_some_iff.1 (hbits.2 index hindex)
      exact hlt
    cases hdict : v.snapshot.resolvedInfo with
    | none => simp [hdict] at hlt
    | some info =>
        have hstored := isPieceStored_of_reconcileStorage (by simp) hdict h hindex
        obtain ⟨hash, data, hhash, hdata, hsha⟩ := storedPiece_of_isPieceStored hstored
        refine ⟨info, hash, data, hinfo.trans hdict, hhash, ?_, hsha⟩
        rw [heq]
        exact hdata
  · -- the bit of a block stays only when its bytes were read
    intro hmode row hrow j hj
    obtain ⟨hrange, -, info, length, hdict, hlength, hblocks⟩ := hfound.blocks row hrow
    rw [hinfo] at hdict
    obtain ⟨length', hlength', hstored⟩ := (row_of_reconcileStorage h hrow).2 hmode info hdict
    cases hlength.symm.trans hlength'
    have hlt : j < divCeil length blockSize := hblocks ▸ (List.getElem?_eq_some_iff.1 hj).1
    have hstart := (lt_divCeil_iff blockSize_pos).1 hlt
    obtain ⟨hash, hhash, hbytes⟩ :=
      hasBytes_of_isBlockStored (snapshotPieceLength_le hlength) hstart (hstored j hj)
    refine ⟨info, hash, length, hinfo.trans hdict, hhash, hlength, hstart, ?_⟩
    rw [heq]
    exact hbytes

namespace Sample

/-- The small torrent with its piece complete, kept in the output file. -/
def kept : ValidatedTorrentSnapshot codec where
  snapshot :=
    { version := torrentSnapshotVersion
      infoHash := encode info
      state := .seeding
      autoStart := true
      sufficientPeers := 1
      outputPath := some [['o']]
      metainfo := .torrent info
      pieceStorage := .inFile
      resolvedMagnetInfo := none
      bitfield := [true]
      blockMap := [] }
  valid := by
    refine ⟨rfl, rfl, fun _ _ => rfl, rfl, fun _ h => (nomatch h), rfl, ?_, by decide⟩
    intro entry hentry
    cases hentry

/-- The output file with the byte of the piece. -/
def outputFile : FileStore Path := fun path => if path = [['o'], ['a']] then some [7] else none

end Sample

theorem reconcile_only_demotes_sample :
    ∃ found, Sample.kept.snapshot.reconcileStorage Sample.codec Sample.outputFile (some true)
        .full = .ok found ∧ found.bitfield = [true] ∧
      ∃ hash data, found.storedPiece Sample.codec Sample.outputFile Sample.info 0 hash = some data ∧
        Sample.codec.sha1 data = hash := by
  have hfound : Sample.kept.snapshot.reconcileStorage Sample.codec Sample.outputFile (some true)
      .full = .ok Sample.kept.snapshot := by rfl
  refine ⟨_, hfound, rfl, ?_⟩
  obtain ⟨-, -, -, -, -, hfull, -⟩ := (reconcile_only_demotes Sample.kept).2 _ _ hfound
  obtain ⟨info, hash, data, hinfo, -, hdata, hsha⟩ := hfull rfl 0 rfl
  cases hinfo
  exact ⟨hash, data, hdata, hsha⟩

end Tortillas
