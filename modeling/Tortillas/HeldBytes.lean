/-
**Where the bytes of a piece are.**

A byte of a piece has one place in the storage: in the file of the piece, or in one of the output files.  Where hashes
and names tell pieces and files apart, two bytes that come to one place are the same byte of the content, so that
a block of the content never spoils another one, whatever is written over what.

A byte of the content is there if the file has it at its place, and it is owed if it is left to be written to its place.
What is left to be written may come to any file at any time, and is harmless where it is the content.

Main definitions:

* `StorageLocation.place` — where a byte of a piece is;
* `Info.WellLaid` — metadata under which different bytes have different places;
* `StorageLocation.Tolerates` — what is left to be written does no harm;
* `TorrentActor.HasByte`, `TorrentActor.OwesByte` — a byte is there, or is left to be written.

Main results:

* `StorageLocation.place_agree` — **two bytes at one place are the same byte of the content**;
* `StorageLocation.tolerates_late` — what is left of a block of the content is the content;
* `TorrentActor.storedPiece_of_hasByte`, `TorrentActor.hasByte_of_storedPiece` — a piece is stored as the content exactly
  if every byte is there.
-/

import Tortillas.ServedBlocks
import Tortillas.RecordedBlocks

set_option relaxedAutoImplicit false
set_option autoImplicit false

namespace Tortillas

variable {H : Type}

/-! ### Places -/

/-- Where a byte of a piece is. -/
def StorageLocation.place (c : Codec H) (info : Info H) (index x : ℕ) :
    StorageLocation → Option (Path × ℕ)
  | .pieceFiles dir => (info.pieces[index]?).map fun hash => (pieceFile c dir hash, x)
  | .outputFiles base =>
      match pieceToPaths (some info) index with
      | .ok _ => (info.bytesBelow base)[index * info.pieceLength.toNat + x]?
      | _ => none

/-- Metadata of a content, under which no two bytes of the content come to one place: different bytes have different
hashes, different hashes different names, and different files different paths. -/
structure Info.WellLaid (c : Codec H) (info : Info H) (pieces : ℕ → Bytes) : Prop where
  sha1 : Function.Injective c.sha1
  toHex : Function.Injective c.toHex
  consistent : info.Consistent
  outputPaths : info.outputPaths.Nodup
  describes : info.Describes c pieces

section Places

variable {c : Codec H} {info : Info H} {pieces : ℕ → Bytes} {location : StorageLocation}

/-- A block of the content has the bytes of its piece. -/
theorem getElem?_of_content {index offset : ℕ} {block : Bytes}
    (hcontent : block = contentBlock pieces (index, offset, block.length)) {k : ℕ} (hk : k < block.length) :
    block[k]? = (pieces index)[offset + k]? := by
  rw [hcontent, contentBlock, List.getElem?_take, if_pos hk, List.getElem?_drop]

theorem Info.WellLaid.length (hl : info.WellLaid c pieces) {index : ℕ} (hindex : index < info.pieceCount) :
    (pieces index).length = info.pieceLen index :=
  hl.describes.length index hindex

/-- **Two bytes at one place are the same byte of the content.** -/
theorem StorageLocation.place_agree (hl : info.WellLaid c pieces) {i j x y : ℕ} {pos : Path × ℕ}
    (hi : i < info.pieceCount) (hj : j < info.pieceCount) (hx : x < info.pieceLen i) (hy : y < info.pieceLen j)
    (h : location.place c info i x = some pos) (h' : location.place c info j y = some pos) :
    (pieces i)[x]? = (pieces j)[y]? := by
  cases location with
  | pieceFiles dir =>
      obtain ⟨hash, hhash, rfl⟩ := Option.map_eq_some_iff.1 h
      obtain ⟨hash', hhash', heq⟩ := Option.map_eq_some_iff.1 h'
      -- the file of a piece has the name of its hash
      simp only [pieceFile, Prod.mk.injEq, List.append_cancel_left_eq, List.cons.injEq, and_true,
        List.append_cancel_right_eq] at heq
      obtain ⟨hname, rfl⟩ := heq
      have hsame : c.sha1 (pieces i) = c.sha1 (pieces j) := by
        rw [hl.describes.hash i hash hhash, hl.describes.hash j hash' hhash', hl.toHex hname]
      rw [hl.sha1 hsame]
  | outputFiles base =>
      simp only [place] at h h'
      split at h
      · split at h'
        · have hsame := (List.getElem?_inj (List.getElem?_eq_some_iff.1 h).1
            (nodup_bytesBelow hl.outputPaths base)).1 (h.trans h'.symm)
          obtain ⟨rfl, rfl⟩ := info.same_place (by rw [← hl.consistent.pieceLen_eq hi]; exact hx)
            (by rw [← hl.consistent.pieceLen_eq hj]; exact hy) hsame
          rfl
        · cases h'
      · cases h

/-- The positions of a block are the places of its bytes. -/
theorem StorageLocation.segments_place {index offset length : ℕ} {segs : List (Segment Path)}
    (hpos : 0 < length) (h : location.segments c info index offset length = some segs) :
    (∀ k, k < length → (segs.flatMap Segment.positions)[k]? = location.place c info index (offset + k)) ∧
      (segs.map Segment.length).sum = length := by
  cases location with
  | pieceFiles dir =>
      obtain ⟨hash, hhash, rfl⟩ := Option.map_eq_some_iff.1 h
      refine ⟨fun k hk => ?_, by simp⟩
      rw [List.flatMap_singleton, Segment.positions, List.getElem?_map, List.getElem?_range' hk, place,
        hhash, Nat.one_mul]
      rfl
  | outputFiles base =>
      simp only [segments] at h
      split at h
      · rename_i found hfound
        cases h
        obtain ⟨hbytes, hsum, -, -, whole, hwhole⟩ :=
          FilePieceManager.pieceRangeSegments_spec hpos hfound base
        refine ⟨fun k hk => ?_, hsum⟩
        rw [hbytes, List.getElem?_take, if_pos hk, List.getElem?_drop, place, hwhole, Nat.add_assoc]
      · cases h

/-- No position of a block occurs twice. -/
theorem StorageLocation.segments_nodup (hpaths : info.outputPaths.Nodup) {index offset length : ℕ}
    {segs : List (Segment Path)} (hpos : 0 < length)
    (h : location.segments c info index offset length = some segs) :
    (segs.flatMap Segment.positions).Nodup := by
  cases location with
  | pieceFiles dir =>
      obtain ⟨hash, -, rfl⟩ := Option.map_eq_some_iff.1 h
      rw [List.flatMap_singleton, Segment.positions]
      exact (List.nodup_range' ..).map fun a b hab => (Prod.mk.inj hab).2
  | outputFiles base =>
      simp only [segments] at h
      split at h
      · rename_i found hfound
        cases h
        rw [(FilePieceManager.pieceRangeSegments_spec hpos hfound base).1]
        exact ((nodup_bytesBelow hpaths base).sublist (List.drop_sublist _ _)).sublist (List.take_sublist _ _)
      · cases h

/-- What is left to be written does no harm at a location: it goes to no file of a piece, and over the output files
it is the content. -/
def StorageLocation.Tolerates (c : Codec H) (info : Info H) (pieces : ℕ → Bytes) (w : LateWrite Path) :
    StorageLocation → Prop
  | .pieceFiles dir => ∀ hash ∈ info.pieces, w.path ≠ pieceFile c dir hash
  | .outputFiles base => ∀ (k : ℕ) (b : UInt8) (index x : ℕ), w.bytes[k]? = some b → index < info.pieceCount →
      x < info.pieceLen index →
      (StorageLocation.outputFiles base).place c info index x = some (w.path, w.offset + k) →
      (pieces index)[x]? = some b

variable {w : LateWrite Path}

/-- It is the content wherever it goes over a place. -/
theorem StorageLocation.Tolerates.agree (h : location.Tolerates c info pieces w) {k index x : ℕ} {b : UInt8}
    (hb : w.bytes[k]? = some b) (hindex : index < info.pieceCount) (hx : x < info.pieceLen index)
    (hplace : location.place c info index x = some (w.path, w.offset + k)) : (pieces index)[x]? = some b := by
  cases location with
  | pieceFiles dir =>
      obtain ⟨hash, hhash, heq⟩ := Option.map_eq_some_iff.1 hplace
      exact absurd (congrArg Prod.fst heq).symm (h hash (List.mem_of_getElem? hhash))
  | outputFiles base => exact h k b index x hb hindex hx hplace

/-- So is a rest of it. -/
theorem StorageLocation.Tolerates.rest (h : location.Tolerates c info pieces w) (n : ℕ) :
    location.Tolerates c info pieces { w with offset := w.offset + n, bytes := w.bytes.drop n } := by
  cases location with
  | pieceFiles dir => exact h
  | outputFiles base =>
      intro k b index x hb hindex hx hplace
      rw [List.getElem?_drop] at hb
      rw [Nat.add_assoc] at hplace
      exact h (n + k) b index x hb hindex hx hplace

/-- What is left of a block of the content is the content. -/
theorem StorageLocation.tolerates_late (hl : info.WellLaid c pieces) {fs : FileStore Path} {index offset : ℕ}
    {block : Bytes} {env : WriteEnv} {segs : List (Segment Path)} (hindex : index < info.pieceCount)
    (hpos : 0 < block.length) (hinside : offset + block.length ≤ info.pieceLen index)
    (hcontent : block = contentBlock pieces (index, offset, block.length))
    (hsegs : location.segments c info index offset block.length = some segs)
    (hw : w ∈ (fs.writeSegments location.flushed segs block env).late) : location.Tolerates c info pieces w := by
  obtain ⟨hplaces, -⟩ := segments_place hpos hsegs
  cases location with
  | pieceFiles dir =>
      rw [flushed, FileStore.writeSegments_late_of_flush] at hw
      cases hw
  | outputFiles base =>
      intro k b i x hb hi hx hplace
      obtain ⟨m, hm, hdata⟩ := FileStore.positions_of_mem_late hw (List.getElem?_eq_some_iff.1 hb).1
      have hlt : m < block.length := (List.getElem?_eq_some_iff.1 (hdata.trans hb)).1
      rw [hplaces m hlt] at hm
      rw [← place_agree hl hindex hi (by omega) hx hm hplace, ← getElem?_of_content hcontent hlt, hdata, hb]

end Places

/-! ### Bytes that are there -/

namespace TorrentActor

variable {c : Codec H} {s t : TorrentActor H} {info : Info H} {pieces : ℕ → Bytes}

/-- The byte of the content is stored. -/
def HasByte (c : Codec H) (info : Info H) (pieces : ℕ → Bytes) (s : TorrentActor H) (index x : ℕ) : Prop :=
  ∃ location pos b, s.location = some location ∧ location.place c info index x = some pos ∧
    s.disk.byteAt pos = some b ∧ (pieces index)[x]? = some b

/-- The byte of the piece is left to be written. -/
def OwesByte (c : Codec H) (info : Info H) (s : TorrentActor H) (index x : ℕ) : Prop :=
  ∃ location w k b, s.location = some location ∧ w ∈ s.unflushed ∧
    location.place c info index x = some (w.path, w.offset + k) ∧ w.bytes[k]? = some b

theorem HasByte.of_same {index x : ℕ} (h : s.HasByte c info pieces index x)
    (hlocation : t.location = s.location) (hdisk : t.disk = s.disk) : t.HasByte c info pieces index x := by
  obtain ⟨location, pos, b, hloc, hplace, hbyte, hb⟩ := h
  exact ⟨location, pos, b, hlocation.trans hloc, hplace, hdisk ▸ hbyte, hb⟩

theorem OwesByte.of_more {index x : ℕ} (h : s.OwesByte c info index x) (hlocation : t.location = s.location)
    (hmore : ∀ w ∈ s.unflushed, w ∈ t.unflushed) : t.OwesByte c info index x := by
  obtain ⟨location, w, k, b, hloc, hw, hplace, hb⟩ := h
  exact ⟨location, w, k, b, hlocation.trans hloc, hmore w hw, hplace, hb⟩

theorem OwesByte.of_same {index x : ℕ} (h : s.OwesByte c info index x) (hlocation : t.location = s.location)
    (hlate : t.unflushed = s.unflushed) : t.OwesByte c info index x :=
  h.of_more hlocation fun _ hw => hlate ▸ hw

/-- No file of a piece in the folder is longer than the piece. -/
def TrimmedIn (c : Codec H) (info : Info H) (fs : FileStore Path) (dir : Path) : Prop :=
  ∀ index hash data, info.pieces[index]? = some hash → fs (pieceFile c dir hash) = some data →
    data.length ≤ info.pieceLen index

/-- **A piece of which every byte is there is stored as the content.** -/
theorem storedPiece_of_hasByte (hl : info.WellLaid c pieces)
    (htrimmed : ∀ dir, s.pieceStorage = .disk dir → TrimmedIn c info s.disk dir) {index : ℕ} {hash : H}
    (hhash : info.pieces[index]? = some hash)
    (hall : ∀ x < info.pieceLen index, s.HasByte c info pieces index x) :
    s.storedPiece c info index hash = some (pieces index) := by
  have hindex : index < info.pieceCount := (List.getElem?_eq_some_iff.1 hhash).1
  have hlength := hl.length hindex
  have hpos := Info.pieceLen_pos hl.consistent.pos index
  unfold storedPiece storedIn
  cases hst : s.pieceStorage with
  | disk dir =>
      have hbyte : ∀ x < info.pieceLen index,
          ∃ b, s.disk.byteAt (pieceFile c dir hash, x) = some b ∧ (pieces index)[x]? = some b := by
        intro x hx
        obtain ⟨location, pos, b, hlocation, hplace, hb, hsame⟩ := hall x hx
        simp only [TorrentActor.location, hst, Option.some.injEq] at hlocation
        subst hlocation
        simp only [StorageLocation.place, hhash, Option.map_some, Option.some.injEq] at hplace
        exact ⟨b, hplace ▸ hb, hsame⟩
      obtain ⟨b, hb, -⟩ := hbyte 0 hpos
      obtain ⟨data, hdata, -⟩ := FileStore.lt_length_of_byteAt hb
      have hle := htrimmed dir hst index hash data hhash hdata
      simp only [hdata, Option.some.injEq]
      refine List.ext_getElem? fun x => ?_
      by_cases hx : x < info.pieceLen index
      · obtain ⟨b, hb, hsame⟩ := hbyte x hx
        rw [FileStore.byteAt, hdata, Option.bind_some] at hb
        rw [hb, hsame]
      · rw [List.getElem?_eq_none (by omega), List.getElem?_eq_none (by omega)]
  | inFile =>
      obtain ⟨location, pos, b, hlocation, hplace, -⟩ := hall 0 hpos
      cases hm : s.pieceManager with
      | custom => simp [TorrentActor.location, hst, hm] at hlocation
      | default m =>
          simp only [TorrentActor.location, hst, hm, Option.map_eq_some_iff] at hlocation
          obtain ⟨base, hbase, rfl⟩ := hlocation
          have hbyte : ∀ x < info.pieceLen index, ∃ b, (∃ whole, pieceToPaths (some info) index = .ok whole) ∧
              FilePieceManager.byteIn info base s.disk (index * info.pieceLength.toNat + x) = some b ∧
                (pieces index)[x]? = some b := by
            intro x hx
            obtain ⟨location', pos', b', hlocation', hplace', hb', hsame⟩ := hall x hx
            simp only [TorrentActor.location, hst, hm, hbase, Option.map_some, Option.some.injEq] at hlocation'
            subst hlocation'
            simp only [StorageLocation.place] at hplace'
            split at hplace'
            · rename_i whole hwhole
              exact ⟨b', ⟨whole, hwhole⟩, by rw [FilePieceManager.byteIn, hplace']; exact hb', hsame⟩
            · cases hplace'
          obtain ⟨_, hwhole, -⟩ := hbyte 0 hpos
          simp only
          rw [hbase, FilePieceManager.readPiece_eq_readPieceBlock hl.consistent base _ hindex]
          refine (FilePieceManager.readPieceRange_eq_some_iff hpos).2 ⟨hwhole, ?_, ?_⟩
          · rw [hl.consistent.pieceLen_eq hindex, Nat.zero_add]
          · refine List.ext_getElem? fun x => ?_
            rw [List.getElem?_map, List.getElem?_map]
            by_cases hx : x < info.pieceLen index
            · obtain ⟨b, -, hb, hsame⟩ := hbyte x hx
              rw [List.getElem?_range' hx, hsame, Option.map_some, Option.map_some, Nat.one_mul, Nat.add_zero, hb]
            · rw [List.getElem?_eq_none (by simpa using hx), List.getElem?_eq_none (by omega)]
              rfl

/-- **Of a piece that is stored as the content every byte is there.** -/
theorem hasByte_of_storedPiece (hl : info.WellLaid c pieces) {index : ℕ} {hash : H}
    (hhash : info.pieces[index]? = some hash) (hstored : s.storedPiece c info index hash = some (pieces index))
    {x : ℕ} (hx : x < info.pieceLen index) : s.HasByte c info pieces index x := by
  have hindex : index < info.pieceCount := (List.getElem?_eq_some_iff.1 hhash).1
  have hlength := hl.length hindex
  have hpos := Info.pieceLen_pos hl.consistent.pos index
  have hbyte : (pieces index)[x]? = some (pieces index)[x] := List.getElem?_eq_getElem (by omega)
  unfold storedPiece storedIn at hstored
  cases hst : s.pieceStorage with
  | disk dir =>
      rw [hst] at hstored
      refine ⟨.pieceFiles dir, (pieceFile c dir hash, x), _, ?_, ?_, ?_, hbyte⟩
      · rw [location, hst]
      · rw [StorageLocation.place, hhash]
        rfl
      · rw [FileStore.byteAt, show s.disk (pieceFile c dir hash) = some (pieces index) from hstored]
        exact hbyte
  | inFile =>
      rw [hst] at hstored
      cases hm : s.pieceManager with
      | custom =>
          rw [hm] at hstored
          cases hstored
      | default m =>
          rw [hm] at hstored
          dsimp only at hstored
          cases hbase : m.path with
          | none =>
              rw [hbase, FilePieceManager.readPiece] at hstored
              split at hstored <;> cases hstored
          | some base =>
              rw [hbase, FilePieceManager.readPiece_eq_readPieceBlock hl.consistent base _ hindex] at hstored
              obtain ⟨⟨whole, hwhole⟩, -, heq⟩ := (FilePieceManager.readPieceRange_eq_some_iff hpos).1 hstored
              have hat := congrArg (·[x]?) heq
              rw [List.getElem?_map, List.getElem?_map, List.getElem?_range' hx, hbyte, Option.map_some,
                Option.map_some, Option.some.injEq, Nat.one_mul, Nat.add_zero] at hat
              obtain ⟨pos, hplace, hb⟩ := Option.bind_eq_some_iff.1 hat
              refine ⟨.outputFiles base, pos, _, ?_, ?_, hb, hbyte⟩
              · rw [location, hst, hm]
                exact congrArg (Option.map StorageLocation.outputFiles) hbase
              · rw [StorageLocation.place, hwhole]
                exact hplace

end TorrentActor

end Tortillas
