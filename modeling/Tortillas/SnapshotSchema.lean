/-
**The schema of saved sessions.**

`torrent/snapshot.rs` and `engine/snapshot.rs`: how a snapshot is written, and how a document is
read.  The current schema is version 2.  In a document of version 1 the bitfield may be a bit vector
instead of a list of bits, the rows of received blocks may be a map from pieces to bit vectors
instead of a list of rows, and the info dictionary stands under another name and is there also for
a torrent that has it in its source.  Which shape a document has is not tagged: reading keeps the
value as it is in the document and tries the current shape first.

The codecs of the field types are derived or come with the types; they are a parameter, of which is
assumed that what is written is read back, and that a bit vector is written as a record.  How an
integer is written as the key of a map is up to the format too.  Where it is written as a text, as
in JSON, it is a text in the value that has been kept, and is refused as an integer; so a map of
rows is read only if it is empty.

Main definitions:

* `SnapshotFormat` — the codecs of the field types;
* `TorrentSnapshotWire`, `SnapshotFormat.wire` — a document as it is read, before migration;
* `TorrentSnapshotWire.migrate`, `SnapshotFormat.deserialize`, `SnapshotFormat.serialize`;
* `OldSnapshot`, `SnapshotFormat.serializeOld` — a snapshot of version 1, and its document;
* `SnapshotFormat.ReadsKeys` — the keys of its rows are read as the integers they are;
* `EngineSnapshot` with its own reading, writing and checks.

Main results:

* `SnapshotFormat.wire_serialize` — a snapshot that is written is read as it was;
* `TorrentSnapshotWire.migrate_of_versionOne`, `TorrentSnapshotWire.migrated_spec` — what the
  migration of version 1 keeps;
* `SnapshotFormat.migratesOld_iff` — **which documents of version 1 are migrated**;
* `snapshot_schema_round_trips` — **round trips and migration**.
-/

import Tortillas.Documents
import Tortillas.Snapshot

set_option relaxedAutoImplicit false
set_option autoImplicit false

namespace Tortillas

variable {H : Type}

/-- The codecs of the field types. -/
structure SnapshotFormat (H : Type) where
  number : FieldCodec ℕ
  flag : FieldCodec Bool
  infoHash : FieldCodec H
  state : FieldCodec TorrentState
  outputPath : FieldCodec (Option Path)
  metainfo : FieldCodec (MetaInfo H)
  pieceStorage : FieldCodec PieceStorageStrategy
  magnetInfo : FieldCodec (Option (Info H))
  bitVec : FieldCodec (List Bool)
  /-- How an integer is written as the key of a map. -/
  mapKey : ℕ → Doc
  /-- A bit vector is written as a record. -/
  bitVec_record : ∀ bits, ∃ entries, bitVec.ser bits = .map entries
  /-- A key is refused as an integer, or is read as the one it is. -/
  mapKey_read : ∀ n, number.de (mapKey n) = none ∨ number.de (mapKey n) = some n

/-- The rows of received blocks, in either shape. -/
inductive PieceBlockMapWire
  | portable (entries : List PieceBlockSnapshot)
  | versionOne (entries : HashMap ℕ (List Bool))

/-- The bitfield, in either shape. -/
inductive SnapshotBitfieldWire
  | portable (bits : List Bool)
  | versionOne (bits : List Bool)

structure TorrentSnapshotWire (H : Type) where
  version : ℕ
  infoHash : H
  state : TorrentState
  autoStart : Bool
  sufficientPeers : ℕ
  outputPath : Option Path
  metainfo : MetaInfo H
  pieceStorage : PieceStorageStrategy
  resolvedMagnetInfo : Option (Info H)
  bitfield : SnapshotBitfieldWire
  blockMap : PieceBlockMapWire

/-- The rows of a map, in the order of their pieces. -/
def sortedRows (entries : HashMap ℕ (List Bool)) : List PieceBlockSnapshot :=
  (entries.toList.map fun row => ⟨row.1, row.2⟩).mergeSort
    fun a b => decide (a.pieceIndex ≤ b.pieceIndex)

/-- The version and the rows of a snapshot, by the version and the rows of its document. -/
def PieceBlockMapWire.migrate :
    ℕ → PieceBlockMapWire → Except String (ℕ × List PieceBlockSnapshot)
  | 1, .versionOne entries => .ok (torrentSnapshotVersion, sortedRows entries)
  | 1, .portable entries | 2, .portable entries => .ok (torrentSnapshotVersion, entries)
  | _, .versionOne _ => .error "map-shaped block state is only supported by snapshot version 1"
  | version, .portable entries => .ok (version, entries)

/-- The bitfield of a snapshot, by the version and the bitfield of its document. -/
def SnapshotBitfieldWire.migrate : ℕ → SnapshotBitfieldWire → Except String (List Bool)
  | 1, .versionOne bits => .ok bits
  | 1, .portable bits | 2, .portable bits => .ok bits
  | _, .versionOne _ => .error "bitvec-shaped bitfields are only supported by snapshot version 1"
  | _, .portable bits => .ok bits

/-- From a document as it is read to a snapshot. -/
def TorrentSnapshotWire.migrate (wire : TorrentSnapshotWire H) :
    Except String (TorrentSnapshot H) := do
  let (version, blockMap) ← wire.blockMap.migrate wire.version
  let bitfield ← wire.bitfield.migrate wire.version
  .ok
    { version := version
      infoHash := wire.infoHash
      state := wire.state
      autoStart := wire.autoStart
      sufficientPeers := wire.sufficientPeers
      outputPath := wire.outputPath
      metainfo := wire.metainfo
      pieceStorage := wire.pieceStorage
      resolvedMagnetInfo :=
        if wire.metainfo.isTorrent && wire.version == 1 then none else wire.resolvedMagnetInfo
      bitfield := bitfield
      blockMap := blockMap }

namespace SnapshotFormat

variable (F : SnapshotFormat H)

/-! ### Writing -/

/-- The fields of a row that is written. -/
def rowFields (entry : PieceBlockSnapshot) : List (Doc × Doc) :=
  [(.text "piece_index".toList, F.number.ser entry.pieceIndex),
    (.text "blocks".toList, F.flag.seq.ser entry.blocks)]

def serializeRow (entry : PieceBlockSnapshot) : Doc := .map (F.rowFields entry)

/-- The fields of a snapshot that is written. -/
def fields (snap : TorrentSnapshot H) : List (Doc × Doc) :=
  [(.text "version".toList, F.number.ser snap.version),
    (.text "info_hash".toList, F.infoHash.ser snap.infoHash),
    (.text "state".toList, F.state.ser snap.state),
    (.text "auto_start".toList, F.flag.ser snap.autoStart),
    (.text "sufficient_peers".toList, F.number.ser snap.sufficientPeers),
    (.text "output_path".toList, F.outputPath.ser snap.outputPath),
    (.text "metainfo".toList, F.metainfo.ser snap.metainfo),
    (.text "piece_storage".toList, F.pieceStorage.ser snap.pieceStorage),
    (.text "resolved_magnet_info".toList, F.magnetInfo.ser snap.resolvedMagnetInfo),
    (.text "bitfield".toList, F.flag.seq.ser snap.bitfield),
    (.text "block_map".toList, .seq (snap.blockMap.map F.serializeRow))]

def serialize (snap : TorrentSnapshot H) : Doc := .map (F.fields snap)

/-! ### Reading -/

def deserializeRow : Doc → Option PieceBlockSnapshot
  | .map entries => do
      let pieceIndex ← (Doc.required ["piece_index".toList] F.number.de entries).toOption
      let blocks ← (Doc.required ["blocks".toList] F.flag.seq.de entries).toOption
      some ⟨pieceIndex, blocks⟩
  -- a record may also be given as the sequence of its fields
  | .seq [pieceIndex, blocks] => do
      let pieceIndex ← F.number.de pieceIndex
      let blocks ← F.flag.seq.de blocks
      some ⟨pieceIndex, blocks⟩
  | _ => none

/-- Read a map from pieces to bit vectors; a later entry replaces an earlier one. -/
def deserializeRowMap : Doc → Option (HashMap ℕ (List Bool))
  | .map entries => do
      let rows ← entries.mapM fun e => do
        let index ← F.number.de e.1
        let bits ← F.bitVec.de e.2
        some (index, bits)
      some (rows.foldl (fun rows row => rows.insert row.1 row.2) ∅)
  | _ => none

/-- Rows of either shape: the current one is tried first. -/
def deserializeBlockMap (d : Doc) : Option PieceBlockMapWire :=
  match FieldCodec.deSeq F.deserializeRow d with
  | some entries => some (.portable entries)
  | none => (F.deserializeRowMap d).map .versionOne

/-- A bitfield of either shape. -/
def deserializeBitfield (d : Doc) : Option SnapshotBitfieldWire :=
  match F.flag.seq.de d with
  | some bits => some (.portable bits)
  | none => (F.bitVec.de d).map .versionOne

/-- A document as it is read. -/
def wire : Doc → Except String (TorrentSnapshotWire H)
  | .map entries => do
      let version ← Doc.required ["version".toList] F.number.de entries
      let infoHash ← Doc.required ["info_hash".toList] F.infoHash.de entries
      let state ← Doc.required ["state".toList] F.state.de entries
      let autoStart ← Doc.required ["auto_start".toList] F.flag.de entries
      let sufficientPeers ← Doc.required ["sufficient_peers".toList] F.number.de entries
      let outputPath ← Doc.optional ["output_path".toList] F.outputPath.de none entries
      let metainfo ← Doc.required ["metainfo".toList] F.metainfo.de entries
      let pieceStorage ← Doc.required ["piece_storage".toList] F.pieceStorage.de entries
      let resolvedMagnetInfo ← Doc.optional ["resolved_magnet_info".toList, "info_dict".toList]
        F.magnetInfo.de none entries
      let bitfield ← Doc.required ["bitfield".toList] F.deserializeBitfield entries
      let blockMap ← Doc.required ["block_map".toList] F.deserializeBlockMap entries
      .ok ⟨version, infoHash, state, autoStart, sufficientPeers, outputPath, metainfo, pieceStorage,
        resolvedMagnetInfo, bitfield, blockMap⟩
  | .seq [version, infoHash, state, autoStart, sufficientPeers, outputPath, metainfo, pieceStorage,
      resolvedMagnetInfo, bitfield, blockMap] => do
      let version ← Doc.item F.number.de version
      let infoHash ← Doc.item F.infoHash.de infoHash
      let state ← Doc.item F.state.de state
      let autoStart ← Doc.item F.flag.de autoStart
      let sufficientPeers ← Doc.item F.number.de sufficientPeers
      let outputPath ← Doc.item F.outputPath.de outputPath
      let metainfo ← Doc.item F.metainfo.de metainfo
      let pieceStorage ← Doc.item F.pieceStorage.de pieceStorage
      let resolvedMagnetInfo ← Doc.item F.magnetInfo.de resolvedMagnetInfo
      let bitfield ← Doc.item F.deserializeBitfield bitfield
      let blockMap ← Doc.item F.deserializeBlockMap blockMap
      .ok ⟨version, infoHash, state, autoStart, sufficientPeers, outputPath, metainfo, pieceStorage,
        resolvedMagnetInfo, bitfield, blockMap⟩
  | _ => .error "invalid type"

def deserialize (d : Doc) : Except String (TorrentSnapshot H) := F.wire d >>= (·.migrate)

/-! ### What is written is read back -/

theorem deserializeRow_serializeRow (entry : PieceBlockSnapshot) :
    F.deserializeRow (F.serializeRow entry) = some entry := by
  have hindex := Doc.required_of_find ["piece_index".toList] (F.rowFields entry) rfl
    (F.number.round_trip entry.pieceIndex)
  have hblocks := Doc.required_of_find ["blocks".toList] (F.rowFields entry) rfl
    (F.flag.seq.round_trip entry.blocks)
  simp only [serializeRow, deserializeRow, hindex, hblocks]
  rfl

/-- A list of rows is read as such. -/
theorem deserializeBlockMap_rows (entries : List PieceBlockSnapshot) :
    F.deserializeBlockMap (.seq (entries.map F.serializeRow)) = some (.portable entries) := by
  have hrows : FieldCodec.deSeq F.deserializeRow (.seq (entries.map F.serializeRow)) = some entries :=
    FieldCodec.mapM_de F.deserializeRow_serializeRow entries
  rw [deserializeBlockMap, hrows]

/-- A map from pieces to bit vectors is read as such when its keys are read. -/
theorem deserializeBlockMap_map {rows : List (ℕ × List Bool)}
    (h : ∀ row ∈ rows, F.number.de (F.mapKey row.1) = some row.1) :
    F.deserializeBlockMap (.map (rows.map fun row => (F.mapKey row.1, F.bitVec.ser row.2))) =
      some (.versionOne (rows.foldl (fun rows row => rows.insert row.1 row.2) ∅)) := by
  have hrows : (rows.map fun row => (F.mapKey row.1, F.bitVec.ser row.2)).mapM (fun e => do
      let index ← F.number.de e.1
      let bits ← F.bitVec.de e.2
      some (index, bits)) = some rows := by
    induction rows with
    | nil => rfl
    | cons row rows ih =>
        have hrest := ih fun row' hmem => h row' (List.mem_cons_of_mem _ hmem)
        rw [List.map_cons, List.mapM_cons, hrest]
        simp [h row (List.mem_cons_self ..), F.bitVec.round_trip]
  simp only [deserializeBlockMap, FieldCodec.deSeq, deserializeRowMap, hrows]
  rfl

/-- A map from pieces to bit vectors is refused when one of its keys is. -/
theorem deserializeBlockMap_of_refused {rows : List (ℕ × List Bool)} {row : ℕ × List Bool}
    (hrow : row ∈ rows) (h : F.number.de (F.mapKey row.1) = none) :
    F.deserializeBlockMap (.map (rows.map fun row => (F.mapKey row.1, F.bitVec.ser row.2))) =
      none := by
  have hrows : (rows.map fun row => (F.mapKey row.1, F.bitVec.ser row.2)).mapM (fun e => do
      let index ← F.number.de e.1
      let bits ← F.bitVec.de e.2
      some (index, bits)) = none := by
    refine FieldCodec.mapM_eq_none_of_mem (List.mem_map_of_mem hrow) ?_
    simp [h]
  simp only [deserializeBlockMap, FieldCodec.deSeq, deserializeRowMap, hrows]
  rfl

/-- A list of bits is read as such. -/
theorem deserializeBitfield_bits (bits : List Bool) :
    F.deserializeBitfield (F.flag.seq.ser bits) = some (.portable bits) := by
  rw [deserializeBitfield, F.flag.seq.round_trip]

/-- A bit vector is read as such. -/
theorem deserializeBitfield_bitVec (bits : List Bool) :
    F.deserializeBitfield (F.bitVec.ser bits) = some (.versionOne bits) := by
  obtain ⟨entries, hentries⟩ := F.bitVec_record bits
  have hseq : F.flag.seq.de (F.bitVec.ser bits) = none := by
    rw [hentries]
    rfl
  rw [deserializeBitfield, hseq, F.bitVec.round_trip]
  rfl

/-- The document of a snapshot, as it is read. -/
def wireOf (snap : TorrentSnapshot H) : TorrentSnapshotWire H where
  version := snap.version
  infoHash := snap.infoHash
  state := snap.state
  autoStart := snap.autoStart
  sufficientPeers := snap.sufficientPeers
  outputPath := snap.outputPath
  metainfo := snap.metainfo
  pieceStorage := snap.pieceStorage
  resolvedMagnetInfo := snap.resolvedMagnetInfo
  bitfield := .portable snap.bitfield
  blockMap := .portable snap.blockMap

/-- **A snapshot that is written is read as it was.** -/
theorem wire_serialize (snap : TorrentSnapshot H) :
    F.wire (F.serialize snap) = .ok (wireOf snap) := by
  have h₁ := Doc.required_of_find ["version".toList] (F.fields snap) rfl
    (F.number.round_trip snap.version)
  have h₂ := Doc.required_of_find ["info_hash".toList] (F.fields snap) rfl
    (F.infoHash.round_trip snap.infoHash)
  have h₃ := Doc.required_of_find ["state".toList] (F.fields snap) rfl
    (F.state.round_trip snap.state)
  have h₄ := Doc.required_of_find ["auto_start".toList] (F.fields snap) rfl
    (F.flag.round_trip snap.autoStart)
  have h₅ := Doc.required_of_find ["sufficient_peers".toList] (F.fields snap) rfl
    (F.number.round_trip snap.sufficientPeers)
  have h₆ := Doc.optional_of_find ["output_path".toList] (F.fields snap) none rfl
    (F.outputPath.round_trip snap.outputPath)
  have h₇ := Doc.required_of_find ["metainfo".toList] (F.fields snap) rfl
    (F.metainfo.round_trip snap.metainfo)
  have h₈ := Doc.required_of_find ["piece_storage".toList] (F.fields snap) rfl
    (F.pieceStorage.round_trip snap.pieceStorage)
  have h₉ := Doc.optional_of_find ["resolved_magnet_info".toList, "info_dict".toList]
    (F.fields snap) none rfl (F.magnetInfo.round_trip snap.resolvedMagnetInfo)
  have h₁₀ := Doc.required_of_find ["bitfield".toList] (F.fields snap) rfl
    (F.deserializeBitfield_bits snap.bitfield)
  have h₁₁ := Doc.required_of_find ["block_map".toList] (F.fields snap) rfl
    (F.deserializeBlockMap_rows snap.blockMap)
  simp only [serialize, wire, h₁, h₂, h₃, h₄, h₅, h₆, h₇, h₈, h₉, h₁₀, h₁₁]
  rfl

end SnapshotFormat

/-! ### Migration -/

/-- The bits of a bitfield of either shape. -/
def SnapshotBitfieldWire.bits : SnapshotBitfieldWire → List Bool
  | portable bits => bits
  | versionOne bits => bits

/-- The rows of received blocks of either shape. -/
def PieceBlockMapWire.rows : PieceBlockMapWire → List PieceBlockSnapshot
  | portable entries => entries
  | versionOne entries => sortedRows entries

/-- The given rows are those of the document: a list is kept as it is, a map has one row for each of
its entries. -/
def PieceBlockMapWire.SameRows : PieceBlockMapWire → List PieceBlockSnapshot → Prop
  | portable entries, rows => rows = entries
  | versionOne entries, rows =>
      (rows.map PieceBlockSnapshot.pieceIndex).Nodup ∧
      ∀ index blocks, ⟨index, blocks⟩ ∈ rows ↔ entries.get? index = some blocks

theorem sortedRows_perm (entries : HashMap ℕ (List Bool)) :
    (sortedRows entries).Perm (entries.toList.map fun row => ⟨row.1, row.2⟩) :=
  List.mergeSort_perm _ _

theorem PieceBlockMapWire.sameRows_rows (blockMap : PieceBlockMapWire) :
    blockMap.SameRows blockMap.rows := by
  cases blockMap with
  | portable entries => exact rfl
  | versionOne entries =>
      have hperm := sortedRows_perm entries
      refine ⟨?_, ?_⟩
      · rw [rows, (hperm.map PieceBlockSnapshot.pieceIndex).nodup_iff, List.map_map]
        exact entries.nodup_toList_keys
      · intro index blocks
        rw [rows, hperm.mem_iff, ← HashMap.mem_toList_iff]
        simp

namespace TorrentSnapshotWire

/-- What the migration of a document of version 1 keeps. -/
structure Migrated (wire : TorrentSnapshotWire H) (snap : TorrentSnapshot H) : Prop where
  version : snap.version = torrentSnapshotVersion
  infoHash : snap.infoHash = wire.infoHash
  state : snap.state = wire.state
  autoStart : snap.autoStart = wire.autoStart
  sufficientPeers : snap.sufficientPeers = wire.sufficientPeers
  outputPath : snap.outputPath = wire.outputPath
  metainfo : snap.metainfo = wire.metainfo
  pieceStorage : snap.pieceStorage = wire.pieceStorage
  bitfield : snap.bitfield = wire.bitfield.bits
  rows : wire.blockMap.SameRows snap.blockMap
  noDuplicate : snap.metainfo.isTorrent = true → snap.resolvedMagnetInfo = none
  magnetInfo : snap.metainfo.isTorrent = false →
    snap.resolvedMagnetInfo = wire.resolvedMagnetInfo

/-- The snapshot of a document of version 1. -/
def migrated (wire : TorrentSnapshotWire H) : TorrentSnapshot H where
  version := torrentSnapshotVersion
  infoHash := wire.infoHash
  state := wire.state
  autoStart := wire.autoStart
  sufficientPeers := wire.sufficientPeers
  outputPath := wire.outputPath
  metainfo := wire.metainfo
  pieceStorage := wire.pieceStorage
  resolvedMagnetInfo := if wire.metainfo.isTorrent then none else wire.resolvedMagnetInfo
  bitfield := wire.bitfield.bits
  blockMap := wire.blockMap.rows

theorem migrated_spec (wire : TorrentSnapshotWire H) : wire.Migrated wire.migrated where
  version := rfl
  infoHash := rfl
  state := rfl
  autoStart := rfl
  sufficientPeers := rfl
  outputPath := rfl
  metainfo := rfl
  pieceStorage := rfl
  bitfield := rfl
  rows := wire.blockMap.sameRows_rows
  noDuplicate := by
    intro htorrent
    exact if_pos htorrent
  magnetInfo := by
    intro hmagnet
    exact if_neg (by simp [show wire.metainfo.isTorrent = false from hmagnet])

/-- A document of version 1 is migrated, whatever its shapes are. -/
theorem migrate_of_versionOne {wire : TorrentSnapshotWire H} (h : wire.version = 1) :
    wire.migrate = .ok wire.migrated := by
  have hrows : wire.blockMap.migrate 1 = .ok (torrentSnapshotVersion, wire.blockMap.rows) := by
    cases wire.blockMap with
    | portable entries => rfl
    | versionOne entries => rfl
  have hbits : wire.bitfield.migrate 1 = .ok wire.bitfield.bits := by
    cases wire.bitfield with
    | portable bits => rfl
    | versionOne bits => rfl
  simp [migrate, migrated, h, hrows, hbits, bind, Except.bind]

/-- In every other version only lists are accepted, and nothing is changed. -/
theorem migrate_eq_ok_iff {wire : TorrentSnapshotWire H} {snap : TorrentSnapshot H}
    (h : wire.version ≠ 1) : wire.migrate = .ok snap ↔ wire = SnapshotFormat.wireOf snap := by
  obtain ⟨version, infoHash, state, autoStart, sufficientPeers, outputPath, metainfo, pieceStorage,
    resolvedMagnetInfo, bitfield, blockMap⟩ := wire
  have hversion : version ≠ 1 := h
  cases blockMap with
  | versionOne entries =>
      have hrows : (PieceBlockMapWire.versionOne entries).migrate version =
          .error "map-shaped block state is only supported by snapshot version 1" := by
        rw [PieceBlockMapWire.migrate.eq_def]
        split <;> simp_all
      simp [migrate, SnapshotFormat.wireOf, hrows, bind, Except.bind]
  | portable entries =>
      have hrows : (PieceBlockMapWire.portable entries).migrate version =
          .ok (version, entries) := by
        rw [PieceBlockMapWire.migrate.eq_def]
        split <;> simp_all [torrentSnapshotVersion]
      cases bitfield with
      | versionOne bits =>
          have hbits : (SnapshotBitfieldWire.versionOne bits).migrate version =
              .error "bitvec-shaped bitfields are only supported by snapshot version 1" := by
            rw [SnapshotBitfieldWire.migrate.eq_def]
            split <;> simp_all
          simp [migrate, SnapshotFormat.wireOf, hrows, hbits, bind, Except.bind]
      | portable bits =>
          have hbits : (SnapshotBitfieldWire.portable bits).migrate version = .ok bits := by
            rw [SnapshotBitfieldWire.migrate.eq_def]
            split <;> simp_all
          obtain ⟨⟩ := snap
          simp [migrate, SnapshotFormat.wireOf, hversion, hrows, hbits, bind, Except.bind]

/-- Only version 1 becomes another one. -/
theorem migrate_version {wire : TorrentSnapshotWire H} {snap : TorrentSnapshot H}
    (h : wire.migrate = .ok snap) :
    snap.version = if wire.version = 1 then torrentSnapshotVersion else wire.version := by
  by_cases hone : wire.version = 1
  · rw [migrate_of_versionOne hone, Except.ok.injEq] at h
    rw [if_pos hone, ← h]
    rfl
  · rw [if_neg hone, (migrate_eq_ok_iff hone).1 h]
    rfl

end TorrentSnapshotWire

namespace SnapshotFormat

variable (F : SnapshotFormat H)

/-- A snapshot is read back unless its version is 1. -/
theorem deserialize_serialize {snap : TorrentSnapshot H} (h : snap.version ≠ 1) :
    F.deserialize (F.serialize snap) = .ok snap := by
  rw [deserialize, F.wire_serialize snap]
  exact (TorrentSnapshotWire.migrate_eq_ok_iff h).2 rfl

/-- A snapshot of version 1 is not read back. -/
theorem deserialize_serialize_ne {snap : TorrentSnapshot H} (h : snap.version = 1) :
    F.deserialize (F.serialize snap) ≠ .ok snap := by
  intro hread
  rw [deserialize, F.wire_serialize snap] at hread
  have hversion := TorrentSnapshotWire.migrate_version hread
  rw [if_pos (show (wireOf snap).version = 1 from h), h] at hversion
  cases hversion

/-- A document that is read is read and migrated. -/
theorem deserialize_eq_ok_iff {d : Doc} {snap : TorrentSnapshot H} :
    F.deserialize d = .ok snap ↔ ∃ wire, F.wire d = .ok wire ∧ wire.migrate = .ok snap := by
  rw [deserialize]
  cases F.wire d with
  | error e => simp [bind, Except.bind]
  | ok wire => simp [bind, Except.bind]

/-- What is read never has version 1. -/
theorem version_ne_one_of_deserialize {d : Doc} {snap : TorrentSnapshot H}
    (h : F.deserialize d = .ok snap) : snap.version ≠ 1 := by
  obtain ⟨wire, -, hmigrate⟩ := F.deserialize_eq_ok_iff.1 h
  rw [TorrentSnapshotWire.migrate_version hmigrate]
  split
  · decide
  · assumption

end SnapshotFormat

/-! ### Documents of version 1 -/

/-- The rows of received blocks of a snapshot of version 1: a list, or the entries of a map. -/
inductive OldRows
  | list (entries : List PieceBlockSnapshot)
  | map (entries : List (ℕ × List Bool))

/-- A snapshot of version 1. -/
structure OldSnapshot (H : Type) where
  infoHash : H
  state : TorrentState
  autoStart : Bool
  sufficientPeers : ℕ
  outputPath : Option Path
  metainfo : MetaInfo H
  pieceStorage : PieceStorageStrategy
  infoDict : Option (Info H)
  bitfield : SnapshotBitfieldWire
  blockMap : OldRows

def OldRows.wire : OldRows → PieceBlockMapWire
  | list entries => .portable entries
  | map entries => .versionOne (entries.foldl (fun rows row => rows.insert row.1 row.2) ∅)

/-- The document of a snapshot of version 1, as it should be read. -/
def OldSnapshot.wire (old : OldSnapshot H) : TorrentSnapshotWire H where
  version := 1
  infoHash := old.infoHash
  state := old.state
  autoStart := old.autoStart
  sufficientPeers := old.sufficientPeers
  outputPath := old.outputPath
  metainfo := old.metainfo
  pieceStorage := old.pieceStorage
  resolvedMagnetInfo := old.infoDict
  bitfield := old.bitfield
  blockMap := old.blockMap.wire

namespace SnapshotFormat

variable (F : SnapshotFormat H)

def serializeOldBitfield : SnapshotBitfieldWire → Doc
  | .portable bits => F.flag.seq.ser bits
  | .versionOne bits => F.bitVec.ser bits

def serializeOldRows : OldRows → Doc
  | .list entries => .seq (entries.map F.serializeRow)
  | .map entries => .map (entries.map fun row => (F.mapKey row.1, F.bitVec.ser row.2))

/-- The fields of a snapshot of version 1 that is written. -/
def oldFields (old : OldSnapshot H) : List (Doc × Doc) :=
  [(.text "version".toList, F.number.ser 1),
    (.text "info_hash".toList, F.infoHash.ser old.infoHash),
    (.text "state".toList, F.state.ser old.state),
    (.text "auto_start".toList, F.flag.ser old.autoStart),
    (.text "sufficient_peers".toList, F.number.ser old.sufficientPeers),
    (.text "output_path".toList, F.outputPath.ser old.outputPath),
    (.text "metainfo".toList, F.metainfo.ser old.metainfo),
    (.text "piece_storage".toList, F.pieceStorage.ser old.pieceStorage),
    (.text "info_dict".toList, F.magnetInfo.ser old.infoDict),
    (.text "bitfield".toList, F.serializeOldBitfield old.bitfield),
    (.text "block_map".toList, F.serializeOldRows old.blockMap)]

def serializeOld (old : OldSnapshot H) : Doc := .map (F.oldFields old)

/-- The keys of the rows are read as the integers they are. -/
def ReadsKeys : OldRows → Prop
  | .list _ => True
  | .map entries => ∀ row ∈ entries, F.number.de (F.mapKey row.1) = some row.1

/-- Where integers are refused when they have been keys, a map of rows is read only if it is
empty. -/
theorem readsKeys_map_iff (h : ∀ n, F.number.de (F.mapKey n) = none)
    (entries : List (ℕ × List Bool)) : F.ReadsKeys (.map entries) ↔ entries = [] := by
  refine ⟨fun hread => List.eq_nil_iff_forall_not_mem.2 fun row hrow => ?_, ?_⟩
  · cases (h row.1).symm.trans (hread row hrow)
  · rintro rfl
    exact nofun

theorem deserializeBitfield_old (bitfield : SnapshotBitfieldWire) :
    F.deserializeBitfield (F.serializeOldBitfield bitfield) = some bitfield := by
  cases bitfield with
  | portable bits => exact F.deserializeBitfield_bits bits
  | versionOne bits => exact F.deserializeBitfield_bitVec bits

/-- Rows of version 1 are read when their keys are, and refused otherwise. -/
theorem deserializeBlockMap_old (rows : OldRows) :
    (F.ReadsKeys rows → F.deserializeBlockMap (F.serializeOldRows rows) = some rows.wire) ∧
      (¬ F.ReadsKeys rows → F.deserializeBlockMap (F.serializeOldRows rows) = none) := by
  cases rows with
  | list entries => exact ⟨fun _ => F.deserializeBlockMap_rows entries, fun h => absurd trivial h⟩
  | map entries =>
      refine ⟨F.deserializeBlockMap_map, fun h => ?_⟩
      rw [ReadsKeys] at h
      push Not at h
      obtain ⟨row, hrow, hne⟩ := h
      exact F.deserializeBlockMap_of_refused hrow ((F.mapKey_read row.1).resolve_right hne)

/-- **A document of version 1 is read as it should be exactly if the keys of its rows are read.** -/
theorem wire_serializeOld (old : OldSnapshot H) :
    (F.ReadsKeys old.blockMap → F.wire (F.serializeOld old) = .ok old.wire) ∧
      (¬ F.ReadsKeys old.blockMap → F.wire (F.serializeOld old) = .error "invalid value") := by
  have h₁ := Doc.required_of_find ["version".toList] (F.oldFields old) rfl (F.number.round_trip 1)
  have h₂ := Doc.required_of_find ["info_hash".toList] (F.oldFields old) rfl
    (F.infoHash.round_trip old.infoHash)
  have h₃ := Doc.required_of_find ["state".toList] (F.oldFields old) rfl
    (F.state.round_trip old.state)
  have h₄ := Doc.required_of_find ["auto_start".toList] (F.oldFields old) rfl
    (F.flag.round_trip old.autoStart)
  have h₅ := Doc.required_of_find ["sufficient_peers".toList] (F.oldFields old) rfl
    (F.number.round_trip old.sufficientPeers)
  have h₆ := Doc.optional_of_find ["output_path".toList] (F.oldFields old) none rfl
    (F.outputPath.round_trip old.outputPath)
  have h₇ := Doc.required_of_find ["metainfo".toList] (F.oldFields old) rfl
    (F.metainfo.round_trip old.metainfo)
  have h₈ := Doc.required_of_find ["piece_storage".toList] (F.oldFields old) rfl
    (F.pieceStorage.round_trip old.pieceStorage)
  have h₉ := Doc.optional_of_find ["resolved_magnet_info".toList, "info_dict".toList]
    (F.oldFields old) none rfl (F.magnetInfo.round_trip old.infoDict)
  have h₁₀ := Doc.required_of_find ["bitfield".toList] (F.oldFields old) rfl
    (F.deserializeBitfield_old old.bitfield)
  obtain ⟨hread, hrefused⟩ := F.deserializeBlockMap_old old.blockMap
  refine ⟨fun h => ?_, fun h => ?_⟩
  · have h₁₁ := Doc.required_of_find ["block_map".toList] (F.oldFields old) rfl (hread h)
    simp only [serializeOld, wire, h₁, h₂, h₃, h₄, h₅, h₆, h₇, h₈, h₉, h₁₀, h₁₁]
    rfl
  · have h₁₁ := Doc.required_of_refused ["block_map".toList] (F.oldFields old) rfl (hrefused h)
    simp only [serializeOld, wire, h₁, h₂, h₃, h₄, h₅, h₆, h₇, h₈, h₉, h₁₀, h₁₁]
    rfl

/-- **What should come of a document of version 1**: a snapshot of the current version with the same
data, which is written and read back as it is. -/
def MigratesOld (old : OldSnapshot H) : Prop :=
  ∃ snap, F.deserialize (F.serializeOld old) = .ok snap ∧ old.wire.Migrated snap ∧
    F.deserialize (F.serialize snap) = .ok snap

/-- What comes of a document of version 1 that is read. -/
theorem deserialize_of_wire {d : Doc} {wire : TorrentSnapshotWire H} (hwire : F.wire d = .ok wire)
    (hone : wire.version = 1) : F.deserialize d = .ok wire.migrated ∧
      F.deserialize (F.serialize wire.migrated) = .ok wire.migrated := by
  have hread : F.deserialize d = .ok wire.migrated :=
    F.deserialize_eq_ok_iff.2 ⟨wire, hwire, TorrentSnapshotWire.migrate_of_versionOne hone⟩
  exact ⟨hread, F.deserialize_serialize (F.version_ne_one_of_deserialize hread)⟩

/-- What comes of the document of a snapshot of version 1. -/
theorem deserialize_serializeOld (old : OldSnapshot H) :
    (F.ReadsKeys old.blockMap → F.deserialize (F.serializeOld old) = .ok old.wire.migrated) ∧
      (¬ F.ReadsKeys old.blockMap → F.deserialize (F.serializeOld old) = .error "invalid value") := by
  obtain ⟨hread, hrefused⟩ := F.wire_serializeOld old
  refine ⟨fun h => (F.deserialize_of_wire (hread h) rfl).1, fun h => ?_⟩
  rw [deserialize, hrefused h]
  rfl

/-- **Which documents of version 1 are migrated**: those whose rows are a list, or a map with keys
that are read. -/
theorem migratesOld_iff (old : OldSnapshot H) : F.MigratesOld old ↔ F.ReadsKeys old.blockMap := by
  constructor
  · rintro ⟨snap, hsnap, -⟩
    by_contra h
    rw [(F.deserialize_serializeOld old).2 h] at hsnap
    cases hsnap
  · intro h
    obtain ⟨hread, hback⟩ := F.deserialize_of_wire ((F.wire_serializeOld old).1 h) rfl
    exact ⟨old.wire.migrated, hread, old.wire.migrated_spec, hback⟩

/-- **The schema of a torrent's snapshot**: what is written is read back, which documents of
version 1 are migrated, and what is read of any document. -/
structure TorrentSchema [DecidableEq H] (c : Codec H) : Prop where
  roundTrip : ∀ snap : TorrentSnapshot H, snap.version = torrentSnapshotVersion →
    F.deserialize (F.serialize snap) = .ok snap
  versionOne : ∀ old : OldSnapshot H, F.MigratesOld old ↔ F.ReadsKeys old.blockMap
  migrated : ∀ d wire, F.wire d = .ok wire → wire.version = 1 →
    ∃ snap, F.deserialize d = .ok snap ∧ wire.Migrated snap ∧
      F.deserialize (F.serialize snap) = .ok snap
  accepted : ∀ d snap, F.deserialize d = .ok snap → snap.validate c = .ok () →
    ∃ wire, F.wire d = .ok wire ∧ (wire.version = 1 ∨ wire.version = 2)

theorem torrentSchema [DecidableEq H] (c : Codec H) : F.TorrentSchema c where
  roundTrip := by
    intro snap hversion
    exact F.deserialize_serialize (by rw [hversion]; decide)
  versionOne := F.migratesOld_iff
  migrated := by
    intro d wire hwire hone
    obtain ⟨hread, hback⟩ := F.deserialize_of_wire hwire hone
    exact ⟨wire.migrated, hread, wire.migrated_spec, hback⟩
  accepted := by
    intro d snap hread hvalid
    obtain ⟨wire, hwire, hmigrate⟩ := F.deserialize_eq_ok_iff.1 hread
    have hversion := TorrentSnapshotWire.migrate_version hmigrate
    rw [((TorrentSnapshot.validate_ok_iff c snap).1 hvalid).version] at hversion
    refine ⟨wire, hwire, ?_⟩
    by_cases hone : wire.version = 1
    · exact .inl hone
    · rw [if_neg hone] at hversion
      exact .inr hversion.symm

end SnapshotFormat

/-! ### Snapshots of an engine -/

def engineSnapshotVersion : ℕ := 2

structure EngineSnapshot (H : Type) where
  version : ℕ
  torrents : List (TorrentSnapshot H)

namespace EngineSnapshot

variable [DecidableEq H]

/-- The loop over the torrents; `unique` holds the hashes of those before. -/
def validateTorrents (c : Codec H) : List (TorrentSnapshot H) → List H → Except String Unit
  | [], _ => .ok ()
  | torrent :: torrents, unique =>
      match torrent.validate c with
      | .error reason => .error reason
      | .ok () =>
          if torrent.infoHash ∈ unique then
            .error "snapshot contains duplicate torrent info hashes"
          else validateTorrents c torrents (torrent.infoHash :: unique)

def validate (c : Codec H) (snap : EngineSnapshot H) : Except String Unit :=
  if snap.version ≠ engineSnapshotVersion then
    .error s!"unsupported version {snap.version}; expected {engineSnapshotVersion}"
  else validateTorrents c snap.torrents []

theorem validateTorrents_ok_iff (c : Codec H) (torrents : List (TorrentSnapshot H))
    (unique : List H) :
    validateTorrents c torrents unique = .ok () ↔
      (∀ torrent ∈ torrents, torrent.IsValid c ∧ torrent.infoHash ∉ unique) ∧
      (torrents.map TorrentSnapshot.infoHash).Nodup := by
  induction torrents generalizing unique with
  | nil => simp [validateTorrents]
  | cons torrent torrents ih =>
      rw [validateTorrents]
      cases hvalid : torrent.validate c with
      | error reason =>
          have hnot : ¬ torrent.IsValid c := by
            rw [← TorrentSnapshot.validate_ok_iff, hvalid]
            intro h
            cases h
          simp [hnot]
      | ok u =>
          have hok := (TorrentSnapshot.validate_ok_iff c torrent).1 hvalid
          by_cases hmem : torrent.infoHash ∈ unique
          · simp [hmem]
          · simp only [hmem, if_false, ih, List.map_cons, List.nodup_cons]
            constructor
            · rintro ⟨hall, hnodup⟩
              refine ⟨?_, ?_, hnodup⟩
              · intro t ht
                rcases List.mem_cons.1 ht with rfl | ht
                · exact ⟨hok, hmem⟩
                · exact ⟨(hall t ht).1, fun hin => (hall t ht).2 (List.mem_cons_of_mem _ hin)⟩
              · intro hin
                obtain ⟨t, ht, heq⟩ := List.mem_map.1 hin
                exact (hall t ht).2 (heq ▸ List.mem_cons_self ..)
            · rintro ⟨hall, hnot, hnodup⟩
              refine ⟨?_, hnodup⟩
              intro t ht
              obtain ⟨hvalid', hseen⟩ := hall t (List.mem_cons_of_mem _ ht)
              refine ⟨hvalid', ?_⟩
              intro hin
              rcases List.mem_cons.1 hin with heq | hin
              · exact hnot (heq ▸ List.mem_map_of_mem ht)
              · exact hseen hin

/-- What exactly the checks accept. -/
theorem validate_ok_iff (c : Codec H) (snap : EngineSnapshot H) :
    snap.validate c = .ok () ↔ snap.version = engineSnapshotVersion ∧
      (∀ torrent ∈ snap.torrents, torrent.IsValid c) ∧
      (snap.torrents.map TorrentSnapshot.infoHash).Nodup := by
  rw [validate]
  split
  · simp_all
  · rw [validateTorrents_ok_iff]
    simp_all

end EngineSnapshot

namespace SnapshotFormat

variable (F : SnapshotFormat H)

/-- The fields of an engine's snapshot that is written. -/
def engineFields (snap : EngineSnapshot H) : List (Doc × Doc) :=
  [(.text "version".toList, F.number.ser snap.version),
    (.text "torrents".toList, .seq (snap.torrents.map F.serialize))]

def serializeEngine (snap : EngineSnapshot H) : Doc := .map (F.engineFields snap)

/-- The document of an engine's snapshot of version 1. -/
def serializeOldEngine (torrents : List (OldSnapshot H)) : Doc :=
  .map [(.text "version".toList, F.number.ser 1),
    (.text "torrents".toList, .seq (torrents.map F.serializeOld))]

/-- An engine's document as it is read: its version and the documents of its torrents. -/
def engineWire : Doc → Except String (ℕ × List Doc)
  | .map entries => do
      let version ← Doc.required ["version".toList] F.number.de entries
      let torrents ← Doc.required ["torrents".toList] Doc.items entries
      .ok (version, torrents)
  | .seq [version, torrents] => do
      let version ← Doc.item F.number.de version
      let torrents ← Doc.item Doc.items torrents
      .ok (version, torrents)
  | _ => .error "invalid type"

def deserializeEngine (d : Doc) : Except String (EngineSnapshot H) := do
  let (version, items) ← F.engineWire d
  let torrents ← items.mapM F.deserialize
  .ok ⟨if version = 1 then engineSnapshotVersion else version, torrents⟩

theorem engineWire_serializeEngine (snap : EngineSnapshot H) :
    F.engineWire (F.serializeEngine snap) = .ok (snap.version, snap.torrents.map F.serialize) := by
  have h₁ := Doc.required_of_find ["version".toList] (F.engineFields snap) rfl
    (F.number.round_trip snap.version)
  have h₂ : Doc.required ["torrents".toList] Doc.items (F.engineFields snap) =
      .ok (snap.torrents.map F.serialize) := Doc.required_of_find _ _ rfl rfl
  simp only [serializeEngine, engineWire, h₁, h₂]
  rfl

/-- What is read of an engine's document. -/
theorem deserializeEngine_eq_ok_iff {d : Doc} {snap : EngineSnapshot H} :
    F.deserializeEngine d = .ok snap ↔ ∃ version items, F.engineWire d = .ok (version, items) ∧
      snap.version = (if version = 1 then engineSnapshotVersion else version) ∧
      List.Forall₂ (fun item torrent => F.deserialize item = .ok torrent) items snap.torrents := by
  rw [deserializeEngine]
  cases hwire : F.engineWire d with
  | error e => simp [bind, Except.bind]
  | ok read =>
      obtain ⟨version, items⟩ := read
      simp only [bind, Except.bind, ← FieldCodec.mapM_ok_iff]
      cases hitems : items.mapM F.deserialize with
      | error e => simp_all
      | ok torrents =>
          obtain ⟨v, ts⟩ := snap
          simp only [Except.ok.injEq, EngineSnapshot.mk.injEq, Prod.mk.injEq]
          constructor
          · rintro ⟨rfl, rfl⟩
            exact ⟨version, items, ⟨rfl, rfl⟩, rfl, hitems⟩
          · rintro ⟨version', items', ⟨rfl, rfl⟩, hv, ht⟩
            rw [hitems, Except.ok.injEq] at ht
            exact ⟨hv.symm, ht⟩

/-- An engine's snapshot of another version than 1 is read back exactly when none of its torrents
has version 1. -/
theorem deserializeEngine_serializeEngine_iff {snap : EngineSnapshot H} (h : snap.version ≠ 1) :
    F.deserializeEngine (F.serializeEngine snap) = .ok snap ↔
      ∀ torrent ∈ snap.torrents, torrent.version ≠ 1 := by
  rw [deserializeEngine_eq_ok_iff, F.engineWire_serializeEngine snap]
  have hall : List.Forall₂ (fun item torrent => F.deserialize item = .ok torrent)
      (snap.torrents.map F.serialize) snap.torrents ↔
      ∀ torrent ∈ snap.torrents, torrent.version ≠ 1 := by
    rw [List.forall₂_map_left_iff, List.forall₂_same]
    refine forall₂_congr fun torrent _ => ⟨?_, F.deserialize_serialize⟩
    intro hread hone
    exact F.deserialize_serialize_ne hone hread
  constructor
  · rintro ⟨version, items, hwire, -, hread⟩
    cases hwire
    exact hall.1 hread
  · intro hversions
    exact ⟨snap.version, _, rfl, (if_neg h).symm, hall.2 hversions⟩

/-- What is read of an engine's document is read back. -/
theorem deserializeEngine_reread {d : Doc} {snap : EngineSnapshot H} (hread : F.deserializeEngine d = .ok snap) :
    F.deserializeEngine (F.serializeEngine snap) = .ok snap := by
  obtain ⟨version, items, -, hversion, hitems⟩ := F.deserializeEngine_eq_ok_iff.1 hread
  have hne : snap.version ≠ 1 := by
    rw [hversion]
    split
    · decide
    · assumption
  refine (F.deserializeEngine_serializeEngine_iff hne).2 ?_
  intro torrent hmem
  obtain ⟨item, -, hitem⟩ := FieldCodec.exists_of_forall₂ hitems.flip hmem
  exact F.version_ne_one_of_deserialize hitem

/-- **What should come of an engine's document of version 1.** -/
def MigratesOldEngine (torrents : List (OldSnapshot H)) : Prop :=
  ∃ snap, F.deserializeEngine (F.serializeOldEngine torrents) = .ok snap ∧
    snap.version = engineSnapshotVersion ∧
    List.Forall₂ (fun old torrent => old.wire.Migrated torrent) torrents snap.torrents ∧
    F.deserializeEngine (F.serializeEngine snap) = .ok snap

/-- **Which of them are migrated**: those with torrents that are all migrated. -/
theorem migratesOldEngine_iff (torrents : List (OldSnapshot H)) :
    F.MigratesOldEngine torrents ↔ ∀ old ∈ torrents, F.ReadsKeys old.blockMap := by
  have hwire : F.engineWire (F.serializeOldEngine torrents) = .ok (1, torrents.map F.serializeOld) := by
    have h₁ := Doc.required_of_find ["version".toList] [(.text "version".toList, F.number.ser 1),
      (.text "torrents".toList, .seq (torrents.map F.serializeOld))] rfl (F.number.round_trip 1)
    simp only [serializeOldEngine, engineWire, h₁]
    rfl
  constructor
  · rintro ⟨snap, hread, -⟩ old hmem
    obtain ⟨version, items, hitems, -, hall⟩ := F.deserializeEngine_eq_ok_iff.1 hread
    cases hwire.symm.trans hitems
    obtain ⟨torrent, -, htorrent⟩ := FieldCodec.exists_of_forall₂ hall (List.mem_map_of_mem hmem)
    by_contra h
    rw [(F.deserialize_serializeOld old).2 h] at htorrent
    cases htorrent
  · intro hkeys
    have hread : F.deserializeEngine (F.serializeOldEngine torrents) =
        .ok ⟨engineSnapshotVersion, torrents.map fun old => old.wire.migrated⟩ := by
      refine F.deserializeEngine_eq_ok_iff.2 ⟨1, _, hwire, rfl, ?_⟩
      rw [List.forall₂_map_left_iff, List.forall₂_map_right_iff, List.forall₂_same]
      exact fun old hmem => (F.deserialize_serializeOld old).1 (hkeys old hmem)
    refine ⟨_, hread, rfl, ?_, F.deserializeEngine_reread hread⟩
    rw [List.forall₂_map_right_iff, List.forall₂_same]
    exact fun old _ => old.wire.migrated_spec

/-- **The schema of an engine's snapshot.** -/
structure EngineSchema [DecidableEq H] (c : Codec H) : Prop where
  roundTrip : ∀ snap : EngineSnapshot H, snap.version = engineSnapshotVersion →
    (F.deserializeEngine (F.serializeEngine snap) = .ok snap ↔
      ∀ torrent ∈ snap.torrents, torrent.version ≠ 1)
  versionOne : ∀ torrents : List (OldSnapshot H),
    F.MigratesOldEngine torrents ↔ ∀ old ∈ torrents, F.ReadsKeys old.blockMap
  migrated : ∀ d items wires, F.engineWire d = .ok (1, items) →
    List.Forall₂ (fun item wire => F.wire item = .ok wire ∧ wire.version = 1) items wires →
    ∃ snap, F.deserializeEngine d = .ok snap ∧ snap.version = engineSnapshotVersion ∧
      List.Forall₂ TorrentSnapshotWire.Migrated wires snap.torrents
  reread : ∀ d snap, F.deserializeEngine d = .ok snap →
    F.deserializeEngine (F.serializeEngine snap) = .ok snap
  accepted : ∀ d snap, F.deserializeEngine d = .ok snap → snap.validate c = .ok () →
    ∃ version items, F.engineWire d = .ok (version, items) ∧ (version = 1 ∨ version = 2) ∧
      ∀ item ∈ items, ∃ wire, F.wire item = .ok wire ∧ (wire.version = 1 ∨ wire.version = 2)

theorem engineSchema [DecidableEq H] (c : Codec H) : F.EngineSchema c where
  roundTrip := by
    intro snap hversion
    exact F.deserializeEngine_serializeEngine_iff (by rw [hversion]; decide)
  versionOne := F.migratesOldEngine_iff
  migrated := by
    intro d items wires hwire hitems
    refine ⟨⟨engineSnapshotVersion, wires.map TorrentSnapshotWire.migrated⟩, ?_, rfl, ?_⟩
    · refine F.deserializeEngine_eq_ok_iff.2 ⟨1, items, hwire, rfl, ?_⟩
      rw [List.forall₂_map_right_iff]
      refine hitems.imp ?_
      rintro item wire ⟨hread, hone⟩
      exact F.deserialize_eq_ok_iff.2
        ⟨wire, hread, TorrentSnapshotWire.migrate_of_versionOne hone⟩
    · rw [List.forall₂_map_right_iff, List.forall₂_same]
      intro wire _
      exact wire.migrated_spec
  reread := fun _ _ hread => F.deserializeEngine_reread hread
  accepted := by
    intro d snap hread hvalid
    obtain ⟨version, items, hwire, hversion, hitems⟩ := F.deserializeEngine_eq_ok_iff.1 hread
    obtain ⟨hcurrent, htorrents, -⟩ := (EngineSnapshot.validate_ok_iff c snap).1 hvalid
    refine ⟨version, items, hwire, ?_, ?_⟩
    · rw [hcurrent] at hversion
      by_cases hone : version = 1
      · exact .inl hone
      · rw [if_neg hone] at hversion
        exact .inr hversion.symm
    · intro item hmem
      obtain ⟨torrent, htorrent, hitem⟩ := FieldCodec.exists_of_forall₂ hitems hmem
      exact (F.torrentSchema c).accepted item torrent hitem
        ((TorrentSnapshot.validate_ok_iff c torrent).2 (htorrents torrent htorrent))

end SnapshotFormat

/-- **Snapshots are read back, and old documents are migrated exactly if the keys of their rows are
read**, for one torrent and for an engine; an engine's snapshot is read back exactly if none of its
torrents has version 1. -/
theorem snapshot_schema_round_trips [DecidableEq H] (c : Codec H) (F : SnapshotFormat H) :
    F.TorrentSchema c ∧ F.EngineSchema c :=
  ⟨F.torrentSchema c, F.engineSchema c⟩

namespace Sample

open FieldCodec

def byteCodec : FieldCodec UInt8 :=
  number.via UInt8.toNat (fun n => some (UInt8.ofNat n)) (by simp)

def wordCodec : FieldCodec UInt64 :=
  number.via UInt64.toNat (fun n => some (UInt64.ofNat n)) (by simp)

def hashCodec : FieldCodec Bytes := byteCodec.seq

def textOption : FieldCodec (Option Text) := text.option (by intro t h; cases h)

def stateNames : List (TorrentState × Text) :=
  [(.added, "Added".toList), (.resolvingMetadata, "ResolvingMetadata".toList),
    (.ready, "Ready".toList), (.downloading, "Downloading".toList), (.paused, "Paused".toList),
    (.seeding, "Seeding".toList), (.restarting, "Restarting".toList),
    (.stopping, "Stopping".toList), (.stopped, "Stopped".toList), (.failed, "Failed".toList)]

def stateCodec : FieldCodec TorrentState :=
  text.via (fun state => (stateNames.lookup state).getD [])
    (fun t => (stateNames.find? (·.2 == t)).map Prod.fst) (by intro state; cases state <;> decide)

def fileCodec : FieldCodec InfoFile :=
  (wordCodec.pair (text.seq.pair textOption)).via (fun f => (f.length, f.path, f.md5sum))
    (fun p => some ⟨p.1, p.2.1, p.2.2⟩) (fun _ => rfl)

def keysCodec : FieldCodec InfoKeys :=
  (either "length".toList "files".toList (by decide) (wordCodec.pair textOption)
    fileCodec.seq).via
    (fun
      | .single length md5sum => .inl (length, md5sum)
      | .multi files => .inr files)
    (fun
      | .inl p => some (.single p.1 p.2)
      | .inr files => some (.multi files))
    (fun keys => by cases keys <;> rfl)

def infoCodec : FieldCodec (Info Bytes) :=
  (text.pair (wordCodec.pair (hashCodec.seq.pair (keysCodec.pair
    ((flag.option (by intro b h; cases h)).pair
      (textOption.pair (textOption.pair textOption))))))).via
    (fun i => (i.name, i.pieceLength, i.pieces, i.file, i.isPrivate, i.publisher, i.publisherUrl,
      i.source))
    (fun p => some ⟨p.1, p.2.1, p.2.2.1, p.2.2.2.1, p.2.2.2.2.1, p.2.2.2.2.2.1, p.2.2.2.2.2.2.1,
      p.2.2.2.2.2.2.2⟩)
    (fun _ => rfl)

def metainfoCodec : FieldCodec (MetaInfo Bytes) :=
  (either "Torrent".toList "MagnetUri".toList (by decide) infoCodec
    (hashCodec.option (by intro hash h; cases h))).via
    (fun
      | .torrent info => .inl info
      | .magnetUri xt => .inr xt)
    (fun
      | .inl info => some (.torrent info)
      | .inr xt => some (.magnetUri xt))
    (fun source => by cases source <;> rfl)

def storageCodec : FieldCodec PieceStorageStrategy :=
  (either "InFile".toList "Disk".toList (by decide) flag text.seq).via
    (fun
      | .inFile => .inl true
      | .disk dir => .inr dir)
    (fun
      | .inl _ => some .inFile
      | .inr dir => some (.disk dir))
    (fun storage => by cases storage <;> rfl)

/-- A bit vector is written as a record of its bits. -/
def bitVecCodec : FieldCodec (List Bool) where
  ser bits := .map [(.text "bits".toList, .num bits.length), (.text "data".toList, flag.seq.ser bits)]
  de
    | .map [_, (_, data)] => flag.seq.de data
    | _ => none
  round_trip bits := flag.seq.round_trip bits

/-- A format that writes small records as the sequences of their fields, and the keys of maps as
texts. -/
def format : SnapshotFormat Bytes where
  number := number
  flag := flag
  infoHash := hashCodec
  state := stateCodec
  outputPath := text.seq.option (by intro path h; cases h)
  metainfo := metainfoCodec
  pieceStorage := storageCodec
  magnetInfo := infoCodec.option (by intro info h; cases h)
  bitVec := bitVecCodec
  mapKey n := .text (Nat.toDigits 10 n)
  bitVec_record bits := ⟨_, rfl⟩
  mapKey_read n := .inl rfl

/-- A magnet link whose metadata is a file of two blocks, one of which is recorded, under the old
version: the rows are a map. -/
def oldRows : OldSnapshot Bytes where
  infoHash := [7]
  state := .paused
  autoStart := true
  sufficientPeers := 6
  outputPath := some [['o']]
  metainfo := .magnetUri (some [7])
  pieceStorage := .inFile
  infoDict := some ⟨['a'], 32768, [[8]], .single 32768 none, none, none, none, none⟩
  bitfield := .versionOne [false]
  blockMap := .map [(0, [true, false])]

/-- A magnet link that has not been resolved, under the old version. -/
def oldTorrent : TorrentSnapshot Bytes where
  version := 1
  infoHash := [7]
  state := .resolvingMetadata
  autoStart := true
  sufficientPeers := 6
  outputPath := some [['o']]
  metainfo := .magnetUri (some [7])
  pieceStorage := .inFile
  resolvedMagnetInfo := none
  bitfield := []
  blockMap := []

end Sample

/-- **The rows of an old document are refused**: a document of version 1 with a map of rows is not
migrated, and is with an empty one.  And an engine's snapshot of the current version with a torrent of
version 1 is not read back: the torrent is migrated. -/
theorem old_rows_refused :
    (¬ Sample.format.MigratesOld Sample.oldRows ∧
      Sample.format.deserialize (Sample.format.serializeOld Sample.oldRows) = .error "invalid value" ∧
      Sample.format.MigratesOld { Sample.oldRows with blockMap := .map [] }) ∧
    ¬ (∀ snap : EngineSnapshot Bytes, snap.version = engineSnapshotVersion →
      Sample.format.deserializeEngine (Sample.format.serializeEngine snap) = .ok snap) := by
  have hrefused : ¬ Sample.format.ReadsKeys Sample.oldRows.blockMap := by
    rw [Sample.oldRows, Sample.format.readsKeys_map_iff fun _ => rfl]
    exact List.cons_ne_nil _ _
  refine ⟨⟨?_, (Sample.format.deserialize_serializeOld _).2 hrefused, ?_⟩, ?_⟩
  · rw [Sample.format.migratesOld_iff]
    exact hrefused
  · rw [Sample.format.migratesOld_iff, Sample.format.readsKeys_map_iff fun _ => rfl]
  · intro h
    have hread := h ⟨engineSnapshotVersion, [Sample.oldTorrent]⟩ rfl
    rw [Sample.format.deserializeEngine_serializeEngine_iff (by decide)] at hread
    exact hread Sample.oldTorrent (List.mem_singleton.2 rfl) rfl

end Tortillas
