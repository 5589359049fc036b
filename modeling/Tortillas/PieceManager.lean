/-
**From pieces to files.**

`pieces/piece_manager.rs`: the file manager lays the pieces of a torrent out over its output files.
`pieceToPaths` maps a piece to segments of files, `pieceRangeSegments` cuts a range of the piece out
of them, and reads and writes go through these segments.

Main definitions:

* `pushTorrentPathSegment` — the check on the names that make up an output path;
* `pieceToPaths` — the segments of a piece;
* `pieceRangeSegments` — the segments of a range of a piece;
* `FilePieceManager` — the manager, with `writePieceRange` and `readPieceRange`.

Main results:

* `pieceToPaths_eq_ok` — when a piece is laid out, and over which segments;
* `pieceRangeSegments_within` — a range of a piece lies within the segments of the piece;
* `sum_pieceToPaths` — the segments of a piece have its length in all;
* `FilePieceManager.readPieceRange_writePieceRange` — **writing into a piece leaves what is read
  from a piece with disjoint segments alone**.
-/

import Tortillas.ByteStore
import Tortillas.MetaInfo

set_option relaxedAutoImplicit false
set_option autoImplicit false

namespace Tortillas

variable {H : Type}

/-- A name is safe as a path segment if it is one normal component: not empty, not a name for the
same or the parent directory, and without a separator. -/
def isSafeSegment (segment : Text) : Bool :=
  segment != [] && segment != ['.'] && segment != ['.', '.'] &&
    segment.all fun c => c != '/' && c != '\\' && c != ':'

def pushTorrentPathSegment (path : Path) (segment : Text) : Outcome String Path :=
  if isSafeSegment segment then .ok (path ++ [segment])
  else .err ("Unsafe torrent output path: " ++ String.ofList segment)

/-- The output path of a file, relative to the output folder. -/
def relativePath (name : Text) (path : Path) : Outcome String Path := do
  let start ← if path.head? = some name then .ok [] else pushTorrentPathSegment [] name
  path.foldlM pushTorrentPathSegment start

/-- The loop over the files: the segments that overlap the piece, and how many bytes are left.
`acc` is where the file starts in the torrent; its sum with a length is checked arithmetic. -/
def fileSegments (name : Text) (pieceStart : ℕ) :
    List InfoFile → ℕ → ℕ → Outcome String (List (Segment Path) × ℕ)
  | [], remaining, _ => .ok ([], remaining)
  | file :: files, remaining, acc =>
      let fileLen := file.length.toNat
      if usizeMax < acc + fileLen then .panic
      else if acc + fileLen ≤ pieceStart then
        fileSegments name pieceStart files remaining (acc + fileLen)
      else do
        let offsetInFile := pieceStart - acc
        let takeLen := min remaining (fileLen - offsetInFile)
        let path ← relativePath name file.path
        if remaining - takeLen = 0 then .ok ([⟨path, offsetInFile, takeLen⟩], 0)
        else
          let (rest, left) ←
            fileSegments name pieceStart files (remaining - takeLen) (acc + fileLen)
          .ok (⟨path, offsetInFile, takeLen⟩ :: rest, left)

/-- `piece_to_paths`: the segments of a piece. -/
def pieceToPaths (info : Option (Info H)) (index : ℕ) : Outcome String (List (Segment Path)) :=
  match info with
  | none => .err "info not set"
  | some info => do
      let pieceLen := info.pieceLength.toNat
      let totalLen := info.totalLength
      if usizeMax < index * pieceLen ∨ usizeMax < index + 1 ∨ usizeMax < (index + 1) * pieceLen then
        .err s!"piece index {index} overflows usize math"
      else
        let pieceStart := index * pieceLen
        let pieceEnd := min ((index + 1) * pieceLen) totalLen
        if totalLen ≤ pieceStart then .err s!"piece index {index} exceeds file lengths"
        else
          let remaining := pieceEnd - pieceStart
          let (segments, left) ←
            match info.file with
            | .single length _ =>
                if pieceStart < length.toNat then do
                  let takeLen := min remaining (length.toNat - pieceStart)
                  let path ← pushTorrentPathSegment [] info.name
                  .ok ([⟨path, pieceStart, takeLen⟩], remaining - takeLen)
                else .ok ([], remaining)
            | .multi files => fileSegments info.name pieceStart files remaining 0
          if left = 0 then .ok segments else .err s!"piece index {index} exceeds file lengths"

/-- The loop of `piece_range_segments`: skip bytes, then take bytes. -/
def rangeSegments : List (Segment Path) → ℕ → ℕ → Outcome String (List (Segment Path))
  | [], _, _ => .err "piece range exceeds file lengths"
  | seg :: segs, skipped, remaining =>
      if seg.length ≤ skipped then rangeSegments segs (skipped - seg.length) remaining
      else
        let segmentLen := min remaining (seg.length - skipped)
        if remaining - segmentLen = 0 then .ok [⟨seg.path, seg.offset + skipped, segmentLen⟩]
        else do
          let rest ← rangeSegments segs 0 (remaining - segmentLen)
          .ok (⟨seg.path, seg.offset + skipped, segmentLen⟩ :: rest)

/-- `piece_range_segments`: the segments of a range of a piece. -/
def pieceRangeSegments (info : Option (Info H)) (index offset length : ℕ) :
    Outcome String (List (Segment Path)) :=
  if length = 0 then .ok []
  else do
    let segs ← pieceToPaths info index
    rangeSegments segs offset length

/-- The manager of the output files: the output folder and the info dictionary, once known. -/
structure FilePieceManager (H : Type) where
  path : Option Path
  info : Option (Info H)

namespace FilePieceManager

/-- A relative segment below the output folder. -/
def under (base : Path) (seg : Segment Path) : Segment Path := { seg with path := base ++ seg.path }

/-- `write_piece_range`.  Each file is dropped without being flushed, so an error of its last write is lost, and
that write may be made after the answer. -/
def writePieceRange (m : FilePieceManager H) (fs : FileStore Path) (index offset : ℕ)
    (data : Bytes) (env : WriteEnv) : WriteResult Path :=
  match m.path with
  | none => ⟨fs, false, []⟩
  | some base =>
      match pieceRangeSegments m.info index offset data.length with
      | .ok segs => fs.writeSegments false (segs.map (under base)) data env
      | _ => ⟨fs, false, []⟩

/-- `read_piece_range`. -/
def readPieceRange (m : FilePieceManager H) (fs : FileStore Path) (index offset length : ℕ) :
    Option Bytes :=
  match m.path with
  | none => none
  | some base =>
      match pieceRangeSegments m.info index offset length with
      | .ok segs => fs.readSegments (segs.map (under base))
      | _ => none

/-- `read_piece`: the whole of a piece. -/
def readPiece (m : FilePieceManager H) (fs : FileStore Path) (index : ℕ) : Option Bytes :=
  match pieceToPaths m.info index with
  | .ok segs => m.readPieceRange fs index 0 (segs.map Segment.length).sum
  | _ => none

end FilePieceManager

/-! ### How the segments lie -/

/-- The segments of the bytes from a start on, and how many bytes are left. -/
def Info.segmentsFrom (info : Info H) (pieceStart remaining : ℕ) :
    Outcome String (List (Segment Path) × ℕ) :=
  match info.file with
  | .single length _ =>
      if pieceStart < length.toNat then do
        let takeLen := min remaining (length.toNat - pieceStart)
        let path ← pushTorrentPathSegment [] info.name
        .ok ([⟨path, pieceStart, takeLen⟩], remaining - takeLen)
      else .ok ([], remaining)
  | .multi files => fileSegments info.name pieceStart files remaining 0

/-- The segments of a piece are found once its bounds are known. -/
theorem pieceToPaths_eq (info : Info H) (index : ℕ) :
    pieceToPaths (some info) index =
      if usizeMax < index * info.pieceLength.toNat ∨ usizeMax < index + 1 ∨
          usizeMax < (index + 1) * info.pieceLength.toNat then
        .err s!"piece index {index} overflows usize math"
      else if info.totalLength ≤ index * info.pieceLength.toNat then
        .err s!"piece index {index} exceeds file lengths"
      else
        info.segmentsFrom (index * info.pieceLength.toNat)
            (min ((index + 1) * info.pieceLength.toNat) info.totalLength -
              index * info.pieceLength.toNat) >>= fun found =>
          if found.2 = 0 then .ok found.1
          else .err s!"piece index {index} exceeds file lengths" := by
  simp only [pieceToPaths, Info.segmentsFrom]
  refine if_congr Iff.rfl rfl (if_congr Iff.rfl rfl ?_)
  cases hfile : info.file with
  | single length md5sum =>
      dsimp only
      split
      · cases pushTorrentPathSegment [] info.name with
        | ok path => rfl
        | err e => rfl
        | panic => rfl
      · rfl
  | multi files => rfl

/-- What a piece that is laid out is: within the total length, with nothing left over. -/
theorem pieceToPaths_eq_ok {info : Info H} {index : ℕ} {segs : List (Segment Path)} :
    pieceToPaths (some info) index = .ok segs ↔
      index + 1 ≤ usizeMax ∧ (index + 1) * info.pieceLength.toNat ≤ usizeMax ∧
      index * info.pieceLength.toNat < info.totalLength ∧
      info.segmentsFrom (index * info.pieceLength.toNat)
        (min ((index + 1) * info.pieceLength.toNat) info.totalLength -
          index * info.pieceLength.toNat) = .ok (segs, 0) := by
  have hmul : index * info.pieceLength.toNat ≤ (index + 1) * info.pieceLength.toNat :=
    Nat.mul_le_mul_right _ (Nat.le_succ index)
  rw [pieceToPaths_eq]
  split
  · refine iff_of_false (by simp) ?_
    omega
  · split
    · refine iff_of_false (by simp) ?_
      omega
    · rw [Outcome.bind_eq_ok]
      constructor
      · rintro ⟨⟨found, left⟩, hfound, hleft⟩
        dsimp only at hleft
        split at hleft
        · rename_i hzero
          cases hleft
          rw [hzero] at hfound
          exact ⟨by omega, by omega, by omega, hfound⟩
        · cases hleft
      · rintro ⟨-, -, -, hfound⟩
        exact ⟨(segs, 0), hfound, rfl⟩

/-- The segments of the file loop take all the bytes that are not left. -/
theorem sum_fileSegments {name : Text} {pieceStart : ℕ} {files : List InfoFile}
    {remaining acc left : ℕ} {segs : List (Segment Path)}
    (h : fileSegments name pieceStart files remaining acc = .ok (segs, left)) :
    (segs.map Segment.length).sum + left = remaining := by
  induction files generalizing remaining acc left segs with
  | nil =>
      cases h
      simp
  | cons file files ih =>
      rw [fileSegments] at h
      split at h
      · cases h
      · split at h
        · exact ih h
        · cases hpath : relativePath name file.path with
          | err e => simp [hpath] at h
          | panic => simp [hpath] at h
          | ok path =>
              simp only [hpath, Outcome.ok_bind] at h
              split at h
              · cases h
                simp
                omega
              · cases hrest : fileSegments name pieceStart files
                    (remaining - min remaining (file.length.toNat - (pieceStart - acc)))
                    (acc + file.length.toNat) with
                | err e => simp [hrest] at h
                | panic => simp [hrest] at h
                | ok rest =>
                    simp only [hrest, Outcome.ok_bind] at h
                    cases h
                    have hsum := ih hrest
                    simp only [List.map_cons, List.sum_cons]
                    omega

/-- The segments found take all the bytes that are not left. -/
theorem sum_segmentsFrom {info : Info H} {start remaining left : ℕ} {segs : List (Segment Path)}
    (h : info.segmentsFrom start remaining = .ok (segs, left)) :
    (segs.map Segment.length).sum + left = remaining := by
  unfold Info.segmentsFrom at h
  split at h
  · split at h
    · obtain ⟨path, -, hfound⟩ := Outcome.bind_eq_ok.1 h
      cases hfound
      simp only [List.map_cons, List.map_nil, List.sum_cons, List.sum_nil]
      omega
    · cases h
      simp
  · exact sum_fileSegments h

/-- **The segments of a piece have its length in all.** -/
theorem sum_pieceToPaths {info : Info H} {index : ℕ} {segs : List (Segment Path)}
    (h : pieceToPaths (some info) index = .ok segs) :
    index * info.pieceLength.toNat < info.totalLength ∧
    (segs.map Segment.length).sum =
      min ((index + 1) * info.pieceLength.toNat) info.totalLength
        - index * info.pieceLength.toNat := by
  obtain ⟨-, -, hstart, hfound⟩ := pieceToPaths_eq_ok.1 h
  have hsum := sum_segmentsFrom hfound
  exact ⟨hstart, by omega⟩

theorem rangeSegments_within {segs found : List (Segment Path)} {skipped remaining : ℕ}
    (h : rangeSegments segs skipped remaining = .ok found) :
    ∀ seg ∈ found, ∃ whole ∈ segs, Segment.Within seg whole := by
  induction segs generalizing skipped remaining found with
  | nil => cases h
  | cons whole segs ih =>
      rw [rangeSegments] at h
      split at h
      · intro seg hseg
        obtain ⟨whole', hmem, hwithin⟩ := ih h seg hseg
        exact ⟨whole', List.mem_cons_of_mem _ hmem, hwithin⟩
      · have hhead : Segment.Within
            ⟨whole.path, whole.offset + skipped, min remaining (whole.length - skipped)⟩ whole := by
          refine ⟨rfl, ?_, ?_⟩
          · change whole.offset ≤ whole.offset + skipped
            omega
          · change whole.offset + skipped + min remaining (whole.length - skipped)
              ≤ whole.offset + whole.length
            omega
        simp only at h
        split at h
        · cases h
          intro seg hseg
          cases List.mem_singleton.1 hseg
          exact ⟨whole, List.mem_cons_self .., hhead⟩
        · cases hrest : rangeSegments segs 0 (remaining - min remaining (whole.length - skipped)) with
          | err e => simp [hrest] at h
          | panic => simp [hrest] at h
          | ok rest =>
              simp only [hrest, Outcome.ok_bind] at h
              cases h
              intro seg hseg
              rcases List.mem_cons.1 hseg with rfl | hmem
              · exact ⟨whole, List.mem_cons_self .., hhead⟩
              · obtain ⟨whole', hmem', hwithin⟩ := ih hrest seg hmem
                exact ⟨whole', List.mem_cons_of_mem _ hmem', hwithin⟩

/-- A range of a piece lies within the segments of the piece. -/
theorem pieceRangeSegments_within {info : Option (Info H)} {index offset length : ℕ}
    {found : List (Segment Path)} (h : pieceRangeSegments info index offset length = .ok found) :
    ∀ seg ∈ found, ∃ segs, pieceToPaths info index = .ok segs ∧
      ∃ whole ∈ segs, Segment.Within seg whole := by
  intro seg hseg
  unfold pieceRangeSegments at h
  split at h
  · cases h
    cases hseg
  · cases hsegs : pieceToPaths info index with
    | err e => simp [hsegs] at h
    | panic => simp [hsegs] at h
    | ok segs =>
        simp only [hsegs, Outcome.ok_bind] at h
        exact ⟨segs, rfl, rangeSegments_within h seg hseg⟩

/-- Two pieces are laid out over disjoint segments. -/
def DisjointPieces (info : Info H) (i j : ℕ) : Prop :=
  ∀ segs segs', pieceToPaths (some info) i = .ok segs → pieceToPaths (some info) j = .ok segs' →
    ∀ seg ∈ segs, ∀ seg' ∈ segs', Segment.Disjoint seg seg'

namespace FilePieceManager

theorem disjoint_under {base : Path} {a b : Segment Path} (h : Segment.Disjoint a b) :
    Segment.Disjoint (under base a) (under base b) := by
  rcases h with hne | hlt
  · refine Or.inl fun heq => hne ?_
    exact List.append_cancel_left heq
  · exact Or.inr hlt

/-- **Writing into a piece leaves a piece with disjoint segments alone.** -/
theorem readPieceRange_writePieceRange {m : FilePieceManager H} {info : Info H}
    (hinfo : m.info = some info) {fs : FileStore Path} {i j offset length : ℕ} {found : Bytes}
    (hd : DisjointPieces info i j) (hread : m.readPieceRange fs j offset length = some found)
    (offset' : ℕ) (data : Bytes) (env : WriteEnv) :
    m.readPieceRange (m.writePieceRange fs i offset' data env).files j offset length
      = some found := by
  unfold writePieceRange readPieceRange at *
  cases hbase : m.path with
  | none => simp [hbase] at hread
  | some base =>
      simp only [hbase, hinfo] at hread ⊢
      cases hj : pieceRangeSegments (some info) j offset length with
      | err e => simp [hj] at hread
      | panic => simp [hj] at hread
      | ok segs' =>
          simp only [hj] at hread ⊢
          cases hi : pieceRangeSegments (some info) i offset' data.length with
          | err e => exact hread
          | panic => exact hread
          | ok segs =>
              refine FileStore.readSegments_writeSegments hread ?_ false data env
              intro seg hseg seg' hseg'
              obtain ⟨a, ha, rfl⟩ := List.mem_map.1 hseg
              obtain ⟨b, hb, rfl⟩ := List.mem_map.1 hseg'
              obtain ⟨wholes, hwholes, whole, hmem, hwithin⟩ := pieceRangeSegments_within hi a ha
              obtain ⟨wholes', hwholes', whole', hmem', hwithin'⟩ :=
                pieceRangeSegments_within hj b hb
              have hd' := hd wholes wholes' hwholes hwholes' whole hmem whole' hmem'
              exact disjoint_under (hwithin'.disjoint (hwithin.disjoint hd').symm).symm

/-- Where everything that is cut short is reported nothing is left to be written. -/
theorem late_writePieceRange_of_reports {env : WriteEnv} (h : env.Reports) (m : FilePieceManager H)
    (fs : FileStore Path) (i offset : ℕ) (data : Bytes) : (m.writePieceRange fs i offset data env).late = [] := by
  unfold writePieceRange
  split
  · rfl
  · split
    · exact FileStore.writeSegments_late_of_reports h _ _ _ _
    · rfl

/-- What is left to be written of a piece goes to an output file of the piece. -/
theorem mem_late_writePieceRange {m : FilePieceManager H} {fs : FileStore Path} {i offset : ℕ} {data : Bytes}
    {env : WriteEnv} {w : LateWrite Path} (h : w ∈ (m.writePieceRange fs i offset data env).late) :
    ∃ base segs, m.path = some base ∧ pieceToPaths m.info i = .ok segs ∧
      ∃ seg ∈ segs, w.path = base ++ seg.path := by
  unfold writePieceRange at h
  cases hbase : m.path with
  | none => simp [hbase] at h
  | some base =>
      simp only [hbase] at h
      cases hi : pieceRangeSegments m.info i offset data.length with
      | err e => simp [hi] at h
      | panic => simp [hi] at h
      | ok segs =>
          simp only [hi] at h
          obtain ⟨seg, hseg, hpath⟩ := FileStore.mem_late_writeSegments h
          obtain ⟨part, hpart, rfl⟩ := List.mem_map.1 hseg
          obtain ⟨wholes, hwholes, whole, hmem, hwithin⟩ := pieceRangeSegments_within hi part hpart
          refine ⟨base, wholes, rfl, hwholes, whole, hmem, ?_⟩
          rw [hpath, under, hwithin.path]

/-- Writing into a piece touches no file but the output files of the piece. -/
theorem writePieceRange_apply_of_ne {m : FilePieceManager H} {fs : FileStore Path} {path : Path}
    {i : ℕ} (h : ∀ base segs, m.path = some base → pieceToPaths m.info i = .ok segs →
      ∀ seg ∈ segs, base ++ seg.path ≠ path)
    (offset : ℕ) (data : Bytes) (env : WriteEnv) :
    (m.writePieceRange fs i offset data env).files path = fs path := by
  unfold writePieceRange
  cases hbase : m.path with
  | none => rfl
  | some base =>
      cases hi : pieceRangeSegments m.info i offset data.length with
      | err e => rfl
      | panic => rfl
      | ok segs =>
          refine FileStore.writeSegments_apply_of_ne ?_ false data env
          intro seg hseg
          obtain ⟨a, ha, rfl⟩ := List.mem_map.1 hseg
          obtain ⟨wholes, hwholes, whole, hmem, hwithin⟩ := pieceRangeSegments_within hi a ha
          rw [under, hwithin.path]
          exact h base wholes hbase hwholes whole hmem

end FilePieceManager

end Tortillas
