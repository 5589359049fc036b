/-
**Snapshots of a torrent.**

`torrent/snapshot.rs`: what is persisted of a torrent, the checks a snapshot has to pass before it
is restored, and the reconciliation of a restored snapshot with the files it refers to.

Main definitions:

* `TorrentState`, `PieceStorageStrategy` — the lifecycle, and where pieces are kept;
* `TorrentSnapshot`, `TorrentSnapshot.validate` — the persisted state and its checks;
* `ValidatedTorrentSnapshot` — a snapshot that has passed them;
* `TorrentSnapshot.reconcileStorage` — what is left of a snapshot after a look at the files.

Main results:

* `TorrentSnapshot.validate_ok_iff` — **what exactly the checks accept**;
* `TorrentSnapshot.isPieceStored_of_reconcileStorage` — after full verification every piece that
  is still complete is stored and has its hash;
* `TorrentSnapshot.IsValid.reconcileStorage` — **reconciliation keeps a snapshot valid**.
-/

import Tortillas.Documents
import Tortillas.PieceManager
import Tortillas.PieceScheduler

set_option relaxedAutoImplicit false
set_option autoImplicit false

namespace Tortillas

/-- The lifecycle of a torrent. -/
inductive TorrentState
  | added
  | resolvingMetadata
  | ready
  | downloading
  | paused
  | seeding
  | restarting
  | stopping
  | stopped
  | failed
  deriving DecidableEq, Repr

namespace TorrentState

def isTransferActive : TorrentState → Bool
  | downloading | seeding => true
  | _ => false

def canBecomeReady : TorrentState → Bool
  | added | resolvingMetadata | ready => true
  | _ => false

def canStart : TorrentState → Bool
  | added | resolvingMetadata | ready | paused => true
  | _ => false

end TorrentState

inductive PieceStorageStrategy
  | inFile
  | disk (dir : Path)
  deriving DecidableEq, Repr

variable {H : Type}

/-- The cache file of a piece with the given hash. -/
def pieceFile (c : Codec H) (dir : Path) (hash : H) : Path :=
  dir ++ [c.toHex hash ++ ['.', 'p', 'i', 'e', 'c', 'e']]

def torrentSnapshotVersion : ℕ := 2

/-- The blocks received of a piece that is not complete. -/
structure PieceBlockSnapshot where
  pieceIndex : ℕ
  blocks : List Bool
  deriving DecidableEq, Repr

structure TorrentSnapshot (H : Type) where
  version : ℕ
  infoHash : H
  state : TorrentState
  autoStart : Bool
  sufficientPeers : ℕ
  outputPath : Option Path
  metainfo : MetaInfo H
  pieceStorage : PieceStorageStrategy
  resolvedMagnetInfo : Option (Info H)
  bitfield : List Bool
  blockMap : List PieceBlockSnapshot

inductive RestoreVerification
  | full
  | fileMetadata
  | trustSnapshot
  deriving DecidableEq, Repr

/-- The snapshot's own computation of the length of a piece. -/
def snapshotPieceLength (info : Info H) (index : ℕ) : Except String ℕ :=
  let standard := info.pieceLength.toNat
  if standard = 0 then .error "piece length must be greater than zero"
  else
    let lastPiece := info.pieceCount - 1
    if index = lastPiece then .ok (info.totalLength - saturatingMul standard lastPiece)
    else .ok standard

namespace TorrentSnapshot

def resolvedInfo (snap : TorrentSnapshot H) : Option (Info H) :=
  match snap.metainfo with
  | .torrent info => some info
  | .magnetUri _ => snap.resolvedMagnetInfo

/-! ### Validation -/

/-- The loop over the block map; `seen` holds the indices of the entries before. -/
def validateBlocks (info : Option (Info H)) (bitfield : List Bool) (pieceCount : ℕ) :
    List PieceBlockSnapshot → List ℕ → Except String Unit
  | [], _ => .ok ()
  | entry :: entries, seen =>
      let index := entry.pieceIndex
      if index ∈ seen then .error s!"partial piece index {index} appears more than once"
      else if pieceCount ≤ index then
        .error "partial piece index is outside the metadata piece range"
      else if bitfield.getD index false then
        .error "completed piece also contains partial block state"
      else
        match info with
        | none => .error "partial block state requires resolved metadata"
        | some dict =>
            match snapshotPieceLength dict index with
            | .error reason => .error reason
            | .ok length =>
                let expected := divCeil length blockSize
                if entry.blocks.length ≠ expected then
                  .error s!"partial piece {index} has {entry.blocks.length} blocks; expected {expected}"
                else validateBlocks info bitfield pieceCount entries (index :: seen)

variable [DecidableEq H]

def validate (c : Codec H) (snap : TorrentSnapshot H) : Except String Unit :=
  if snap.version ≠ torrentSnapshotVersion then
    .error s!"unsupported version {snap.version}; expected {torrentSnapshotVersion}"
  else
    match snap.metainfo.infoHash c with
    | none => .error "failed to hash metainfo"
    | some metainfoHash =>
        if metainfoHash ≠ snap.infoHash then .error "info hash does not match metainfo"
        else if snap.metainfo.isTorrent && snap.resolvedMagnetInfo.isSome then
          .error "torrent metainfo must not duplicate its info dictionary"
        else if snap.outputPath.isNone then .error "snapshot does not contain an output path"
        else if snap.resolvedMagnetInfo.any (fun info => !decide (info.hash c = snap.infoHash)) then
          .error "restored info dictionary does not match the info hash"
        else
          let pieceCount := (snap.resolvedInfo.map Info.pieceCount).getD 0
          if snap.bitfield.length ≠ pieceCount then
            .error s!"bitfield has {snap.bitfield.length} pieces but metadata declares {pieceCount}"
          else validateBlocks snap.resolvedInfo snap.bitfield pieceCount snap.blockMap []

/-- What the checks ask of one entry of the block map. -/
structure ValidEntry (info : Option (Info H)) (bitfield : List Bool) (pieceCount : ℕ)
    (entry : PieceBlockSnapshot) : Prop where
  range : entry.pieceIndex < pieceCount
  incomplete : bitfield.getD entry.pieceIndex false = false
  blocks : ∃ dict length, info = some dict ∧
    snapshotPieceLength dict entry.pieceIndex = .ok length ∧
    entry.blocks.length = divCeil length blockSize

omit [DecidableEq H] in
theorem validateBlocks_ok_iff (info : Option (Info H)) (bitfield : List Bool) (pieceCount : ℕ)
    (entries : List PieceBlockSnapshot) (seen : List ℕ) :
    validateBlocks info bitfield pieceCount entries seen = .ok () ↔
      (∀ entry ∈ entries, ValidEntry info bitfield pieceCount entry ∧ entry.pieceIndex ∉ seen) ∧
      (entries.map PieceBlockSnapshot.pieceIndex).Nodup := by
  induction entries generalizing seen with
  | nil => simp [validateBlocks]
  | cons entry entries ih =>
      constructor
      · intro h
        unfold validateBlocks at h
        simp only at h
        split at h
        · cases h
        · rename_i hseen
          split at h
          · cases h
          · rename_i hrange
            split at h
            · cases h
            · rename_i hbit
              cases info with
              | none => cases h
              | some dict =>
                  simp only at h
                  cases hlen : snapshotPieceLength dict entry.pieceIndex with
                  | error reason => simp [hlen] at h
                  | ok length =>
                      simp only [hlen] at h
                      split at h
                      · cases h
                      · rename_i hblocks
                        obtain ⟨hrest, hnodup⟩ := (ih _).1 h
                        refine ⟨?_, ?_⟩
                        · intro e he
                          rcases List.mem_cons.1 he with rfl | hmem
                          · refine ⟨⟨Nat.lt_of_not_le hrange, by simpa using hbit, dict, length,
                              rfl, hlen, by simpa using hblocks⟩, hseen⟩
                          · obtain ⟨hvalid, hnot⟩ := hrest e hmem
                            exact ⟨hvalid, fun hin => hnot (List.mem_cons_of_mem _ hin)⟩
                        · rw [List.map_cons, List.nodup_cons]
                          refine ⟨fun hin => ?_, hnodup⟩
                          obtain ⟨e, he, heq⟩ := List.mem_map.1 hin
                          exact (hrest e he).2 (heq ▸ List.mem_cons_self ..)
      · rintro ⟨hall, hnodup⟩
        rw [List.map_cons, List.nodup_cons] at hnodup
        obtain ⟨hvalid, hseen⟩ := hall entry (List.mem_cons_self ..)
        obtain ⟨hrange, hbit, dict, length, rfl, hlen, hblocks⟩ := hvalid
        unfold validateBlocks
        simp only [hseen, if_false, Nat.not_le.2 hrange, hbit, hlen, hblocks]
        simp only [ne_eq, not_true_eq_false, Bool.false_eq_true, if_false]
        refine (ih _).2 ⟨?_, hnodup.2⟩
        intro e he
        obtain ⟨hvalid', hseen'⟩ := hall e (List.mem_cons_of_mem _ he)
        refine ⟨hvalid', ?_⟩
        intro hin
        rcases List.mem_cons.1 hin with heq | hin
        · exact hnodup.1 (heq ▸ List.mem_map_of_mem he)
        · exact hseen' hin

/-- What the checks ask of a snapshot. -/
structure IsValid (c : Codec H) (snap : TorrentSnapshot H) : Prop where
  version : snap.version = torrentSnapshotVersion
  infoHash : snap.metainfo.infoHash c = some snap.infoHash
  noDuplicate : ∀ info, snap.metainfo = .torrent info → snap.resolvedMagnetInfo = none
  outputPath : snap.outputPath.isSome = true
  resolved : ∀ info, snap.resolvedMagnetInfo = some info → info.hash c = snap.infoHash
  bitfield : snap.bitfield.length = (snap.resolvedInfo.map Info.pieceCount).getD 0
  blocks : ∀ entry ∈ snap.blockMap, ValidEntry snap.resolvedInfo snap.bitfield
    ((snap.resolvedInfo.map Info.pieceCount).getD 0) entry
  nodup : (snap.blockMap.map PieceBlockSnapshot.pieceIndex).Nodup

/-- **What exactly the checks accept.** -/
theorem validate_ok_iff (c : Codec H) (snap : TorrentSnapshot H) :
    snap.validate c = .ok () ↔ snap.IsValid c := by
  constructor
  · intro h
    unfold validate at h
    split at h
    · cases h
    · rename_i hversion
      cases hhash : snap.metainfo.infoHash c with
      | none => simp [hhash] at h
      | some hash =>
          simp only [hhash] at h
          split at h
          · cases h
          · rename_i heq
            split at h
            · cases h
            · rename_i hdup
              split at h
              · cases h
              · rename_i hpath
                split at h
                · cases h
                · rename_i hresolved
                  split at h
                  · cases h
                  · rename_i hlen
                    obtain ⟨hblocks, hnodup⟩ := (validateBlocks_ok_iff ..).1 h
                    refine ⟨by simpa using hversion, by simpa [hhash] using heq, ?_,
                      by simpa [Option.isSome_iff_ne_none] using hpath, ?_, by simpa using hlen,
                      fun entry he => (hblocks entry he).1, hnodup⟩
                    · intro info hinfo
                      simpa [hinfo, MetaInfo.isTorrent] using hdup
                    · intro info hinfo
                      simpa [hinfo] using hresolved
  · intro h
    have hblocks := (validateBlocks_ok_iff snap.resolvedInfo snap.bitfield
      ((snap.resolvedInfo.map Info.pieceCount).getD 0) snap.blockMap []).2
      ⟨fun entry he => ⟨h.blocks entry he, List.not_mem_nil⟩, h.nodup⟩
    have hdup : (snap.metainfo.isTorrent && snap.resolvedMagnetInfo.isSome) = false := by
      cases hmeta : snap.metainfo with
      | torrent info => simp [h.noDuplicate info hmeta]
      | magnetUri xt => simp [MetaInfo.isTorrent]
    have hpath : snap.outputPath.isNone = false := by
      obtain ⟨path, hp⟩ := Option.isSome_iff_exists.1 h.outputPath
      simp [hp]
    have hresolved :
        (snap.resolvedMagnetInfo.any fun info => !decide (info.hash c = snap.infoHash)) = false := by
      cases hinfo : snap.resolvedMagnetInfo with
      | none => rfl
      | some info => simp [h.resolved info hinfo]
    unfold validate
    simp [h.version, h.infoHash, hdup, hpath, hresolved, h.bitfield, hblocks]

/-! ### Reconciliation with the files -/

/-- Whether a piece marked complete is found in the files, as far as the mode asks. -/
def isPieceStored (c : Codec H) (fs : FileStore Path) (mode : RestoreVerification)
    (snap : TorrentSnapshot H) (info : Info H) (index : ℕ) : Except String Bool :=
  match snap.pieceStorage, info.pieces[index]? with
  | _, none => .ok false
  | .disk dir, some hash =>
      match mode with
      | .full => .ok ((fs (pieceFile c dir hash)).any fun data => c.sha1 data = hash)
      | .fileMetadata => do
          let expected ← snapshotPieceLength info index
          .ok ((fs (pieceFile c dir hash)).any fun data => expected ≤ data.length)
      | .trustSnapshot => .ok true
  | .inFile, some hash =>
      match FilePieceManager.readPiece ⟨snap.outputPath, some info⟩ fs index with
      | none => .ok false
      | some data =>
          if mode = .fileMetadata then do
            let expected ← snapshotPieceLength info index
            .ok (data.length = expected)
          else .ok (c.sha1 data = hash)

/-- Whether the bytes of a block marked received are there. -/
def isBlockStored (c : Codec H) (fs : FileStore Path) (snap : TorrentSnapshot H) (info : Info H)
    (index pieceLen blockIndex : ℕ) : Bool :=
  let offset := saturatingMul blockIndex blockSize
  let length := min (pieceLen - offset) blockSize
  match snap.pieceStorage, info.pieces[index]? with
  | _, none => false
  | .disk dir, some hash =>
      (fs (pieceFile c dir hash)).any fun data => saturatingAdd offset length ≤ data.length
  | .inFile, some _ =>
      (FilePieceManager.readPieceRange ⟨snap.outputPath, some info⟩ fs index offset length).any
        fun data => data.length = length

/-- Ask about each bit that is set, from the given index on, and keep the answer. -/
def reconcileBits (stored : ℕ → Except String Bool) : List Bool → ℕ → Except String (List Bool)
  | [], _ => .ok []
  | false :: bits, i => do
      let rest ← reconcileBits stored bits (i + 1)
      .ok (false :: rest)
  | true :: bits, i => do
      let bit ← stored i
      let rest ← reconcileBits stored bits (i + 1)
      .ok (bit :: rest)

/-- One row of the block map. -/
def reconcileEntry (c : Codec H) (fs : FileStore Path) (snap : TorrentSnapshot H) (info : Info H)
    (entry : PieceBlockSnapshot) : Except String PieceBlockSnapshot := do
  let pieceLen ← snapshotPieceLength info entry.pieceIndex
  let blocks ← reconcileBits
    (fun block => .ok (isBlockStored c fs snap info entry.pieceIndex pieceLen block))
    entry.blocks 0
  .ok { entry with blocks := blocks }

/-- `reconcile_storage`.  `folder` is what the file system says of the output folder: whether it
is a directory, or nothing if it cannot be examined. -/
def reconcileStorage (c : Codec H) (fs : FileStore Path) (folder : Option Bool)
    (mode : RestoreVerification) (snap : TorrentSnapshot H) :
    Except String (TorrentSnapshot H) :=
  if mode = .trustSnapshot then .ok snap
  else if snap.outputPath.isNone then .error "snapshot does not contain an output path"
  else
    match folder with
    | none => .error "reconcile restored output folder"
    | some false => .error "restored output path is not a directory"
    | some true =>
        match snap.resolvedInfo with
        | none => .ok snap
        | some info => do
            let bitfield ← reconcileBits (isPieceStored c fs mode snap info) snap.bitfield 0
            let entries ← snap.blockMap.mapM (reconcileEntry c fs snap info)
            .ok { snap with
              bitfield := bitfield
              blockMap := entries.filter fun entry => entry.blocks.any id }

omit [DecidableEq H] in
/-- A bit that is still set was asked about, and the answer was yes. -/
theorem stored_of_reconcileBits {stored : ℕ → Except String Bool} {bits rest : List Bool} {i : ℕ}
    (h : reconcileBits stored bits i = .ok rest) {k : ℕ} (hk : rest[k]? = some true) :
    stored (i + k) = .ok true := by
  induction bits generalizing rest i k with
  | nil =>
      cases h
      simp at hk
  | cons b bits ih =>
      cases b with
      | false =>
          rw [reconcileBits] at h
          cases hrest : reconcileBits stored bits (i + 1) with
          | error e =>
              rw [hrest] at h
              cases h
          | ok found =>
              rw [hrest] at h
              cases h
              cases k with
              | zero => simp at hk
              | succ k =>
                  have hstored := ih hrest (by simpa using hk)
                  rw [← hstored]
                  congr 1
                  omega
      | true =>
          rw [reconcileBits] at h
          cases hbit : stored i with
          | error e =>
              rw [hbit] at h
              cases h
          | ok bit =>
              cases hrest : reconcileBits stored bits (i + 1) with
              | error e =>
                  rw [hbit, hrest] at h
                  cases h
              | ok found =>
                  rw [hbit, hrest] at h
                  cases h
                  cases k with
                  | zero =>
                      simp only [List.getElem?_cons_zero, Option.some.injEq] at hk
                      rw [Nat.add_zero, hbit, hk]
                  | succ k =>
                      have hstored := ih hrest (by simpa using hk)
                      rw [← hstored]
                      congr 1
                      omega

omit [DecidableEq H] in
/-- Bits are only cleared. -/
theorem reconcileBits_spec {stored : ℕ → Except String Bool} {bits rest : List Bool} {i : ℕ}
    (h : reconcileBits stored bits i = .ok rest) :
    List.Forall₂ (fun b b' => b = false → b' = false) bits rest := by
  induction bits generalizing rest i with
  | nil =>
      cases h
      exact List.Forall₂.nil
  | cons b bits ih =>
      cases b with
      | false =>
          rw [reconcileBits] at h
          cases hrest : reconcileBits stored bits (i + 1) with
          | error e =>
              rw [hrest] at h
              cases h
          | ok found =>
              rw [hrest] at h
              cases h
              exact List.Forall₂.cons id (ih hrest)
      | true =>
          rw [reconcileBits] at h
          cases hbit : stored i with
          | error e =>
              rw [hbit] at h
              cases h
          | ok bit =>
              cases hrest : reconcileBits stored bits (i + 1) with
              | error e =>
                  rw [hbit, hrest] at h
                  cases h
              | ok found =>
                  rw [hbit, hrest] at h
                  cases h
                  exact List.Forall₂.cons (fun hb => nomatch hb) (ih hrest)

omit [DecidableEq H] in
theorem getD_of_forall₂ {bits rest : List Bool}
    (h : List.Forall₂ (fun b b' => b = false → b' = false) bits rest) {i : ℕ}
    (hi : bits.getD i false = false) : rest.getD i false = false := by
  induction h generalizing i with
  | nil => exact hi
  | cons hb _ ih =>
      cases i with
      | zero => exact hb hi
      | succ i => exact ih hi

omit [DecidableEq H] in
/-- A row keeps its piece and its length. -/
theorem reconcileEntry_spec {c : Codec H} {fs : FileStore Path} {snap : TorrentSnapshot H}
    {info : Info H} {entry found : PieceBlockSnapshot}
    (h : reconcileEntry c fs snap info entry = .ok found) :
    found.pieceIndex = entry.pieceIndex ∧ found.blocks.length = entry.blocks.length := by
  unfold reconcileEntry at h
  cases hlen : snapshotPieceLength info entry.pieceIndex with
  | error e =>
      rw [hlen] at h
      cases h
  | ok pieceLen =>
      rw [hlen] at h
      change (reconcileBits (fun block => .ok (isBlockStored c fs snap info entry.pieceIndex
        pieceLen block)) entry.blocks 0 >>= fun blocks => .ok { entry with blocks := blocks })
        = .ok found at h
      cases hbits : reconcileBits (fun block => .ok (isBlockStored c fs snap info entry.pieceIndex
          pieceLen block)) entry.blocks 0 with
      | error e =>
          rw [hbits] at h
          cases h
      | ok blocks =>
          rw [hbits] at h
          cases h
          exact ⟨rfl, (reconcileBits_spec hbits).length_eq.symm⟩

/-- **What reconciliation can do**: nothing, or ask about every bit. -/
theorem reconcileStorage_cases {c : Codec H} {fs : FileStore Path} {folder : Option Bool}
    {mode : RestoreVerification} {snap found : TorrentSnapshot H}
    (h : snap.reconcileStorage c fs folder mode = .ok found) :
    (found = snap ∧ (mode = .trustSnapshot ∨ snap.resolvedInfo = none)) ∨
    ∃ info bits entries, snap.resolvedInfo = some info ∧
      reconcileBits (isPieceStored c fs mode snap info) snap.bitfield 0 = .ok bits ∧
      snap.blockMap.mapM (reconcileEntry c fs snap info) = .ok entries ∧
      found = { snap with
        bitfield := bits
        blockMap := entries.filter fun entry => entry.blocks.any id } := by
  unfold reconcileStorage at h
  split at h
  · rename_i hmode
    cases h
    exact Or.inl ⟨rfl, Or.inl hmode⟩
  · split at h
    · cases h
    · match folder, h with
      | some true, h =>
          cases hinfo : snap.resolvedInfo with
          | none =>
              simp only [hinfo] at h
              cases h
              exact Or.inl ⟨rfl, Or.inr rfl⟩
          | some info =>
              simp only [hinfo] at h
              cases hbits : reconcileBits (isPieceStored c fs mode snap info) snap.bitfield 0 with
              | error e =>
                  rw [hbits] at h
                  cases h
              | ok bits =>
                  rw [hbits] at h
                  cases hentries : snap.blockMap.mapM (reconcileEntry c fs snap info) with
                  | error e =>
                      simp only [hentries] at h
                      cases h
                  | ok entries =>
                      simp only [hentries] at h
                      cases h
                      exact Or.inr ⟨info, bits, entries, rfl, hbits, hentries, rfl⟩

/-- **After reconciliation every piece that is still complete has been found in the files.** -/
theorem isPieceStored_of_reconcileStorage {c : Codec H} {fs : FileStore Path}
    {folder : Option Bool} {mode : RestoreVerification} {snap found : TorrentSnapshot H}
    {info : Info H} (hmode : mode ≠ .trustSnapshot) (hinfo : snap.resolvedInfo = some info)
    (h : snap.reconcileStorage c fs folder mode = .ok found) {index : ℕ}
    (hbit : found.bitfield[index]? = some true) :
    isPieceStored c fs mode snap info index = .ok true := by
  rcases reconcileStorage_cases h with ⟨-, htrust | hnone⟩ | ⟨info', bits, entries, hinfo', hbits, -, rfl⟩
  · exact absurd htrust hmode
  · cases hnone.symm.trans hinfo
  · cases hinfo.symm.trans hinfo'
    have hstored := stored_of_reconcileBits hbits hbit
    rwa [Nat.zero_add] at hstored

/-- What reconciliation leaves alone. -/
theorem reconcileStorage_eq {c : Codec H} {fs : FileStore Path} {folder : Option Bool}
    {mode : RestoreVerification} {snap found : TorrentSnapshot H}
    (h : snap.reconcileStorage c fs folder mode = .ok found) :
    found = { snap with bitfield := found.bitfield, blockMap := found.blockMap } := by
  rcases reconcileStorage_cases h with ⟨rfl, -⟩ | ⟨_, _, _, -, -, -, rfl⟩
  · rfl
  · rfl

/-- **A snapshot that has passed the checks passes them after reconciliation**, so the engine need
not check again. -/
theorem IsValid.reconcileStorage {c : Codec H} {fs : FileStore Path} {folder : Option Bool}
    {mode : RestoreVerification} {snap found : TorrentSnapshot H} (hv : snap.IsValid c)
    (h : snap.reconcileStorage c fs folder mode = .ok found) : found.IsValid c := by
  rcases reconcileStorage_cases h with ⟨rfl, -⟩ | ⟨info, bits, entries, hinfo, hbits, hentries, rfl⟩
  · exact hv
  · have hclear := reconcileBits_spec hbits
    have hrows := FieldCodec.mapM_ok_iff.1 hentries
    refine ⟨hv.version, hv.infoHash, hv.noDuplicate, hv.outputPath, hv.resolved,
      hclear.length_eq.symm.trans hv.bitfield, ?_, ?_⟩
    · intro found hfound
      -- Each row that is left comes from a row that was valid.
      have hmem : found ∈ entries := List.mem_of_mem_filter hfound
      obtain ⟨i, hi, rfl⟩ := List.getElem_of_mem hmem
      have hi' : i < snap.blockMap.length := hrows.length_eq ▸ hi
      obtain ⟨hindex, hlen⟩ := reconcileEntry_spec (hrows.get hi' hi)
      obtain ⟨hrange, hbit, dict, length, hdict, hpiece, hblocks⟩ :=
        hv.blocks _ (List.getElem_mem hi')
      change entries[i].pieceIndex = snap.blockMap[i].pieceIndex at hindex
      change entries[i].blocks.length = snap.blockMap[i].blocks.length at hlen
      refine ⟨?_, ?_, dict, length, hdict, ?_, hlen.trans hblocks⟩
      · rw [hindex]
        exact hrange
      · rw [hindex]
        exact getD_of_forall₂ hclear hbit
      · rw [hindex]
        exact hpiece
    · have hindices : entries.map PieceBlockSnapshot.pieceIndex
          = snap.blockMap.map PieceBlockSnapshot.pieceIndex := by
        clear hentries hbits hclear hv h
        generalize snap.blockMap = rows at hrows
        induction hrows with
        | nil => rfl
        | cons hentry _ ih => rw [List.map_cons, List.map_cons, (reconcileEntry_spec hentry).1, ih]
      have hnodup := hv.nodup
      rw [← hindices] at hnodup
      exact hnodup.sublist (List.Sublist.map _ List.filter_sublist)

end TorrentSnapshot

/-- A snapshot that has passed the checks. -/
structure ValidatedTorrentSnapshot [DecidableEq H] (c : Codec H) where
  snapshot : TorrentSnapshot H
  valid : snapshot.IsValid c

end Tortillas
