/-
**The pieces tile the torrent.**

`piece_to_paths` walks over the files of a torrent and takes from each what belongs to the piece.  Its
segments are those of the walk over the lengths of the files, with output paths in the place of file
numbers, and so the segments of all pieces, one piece after the other, are the bytes of all files in
order.  Machine arithmetic sets two limits: a piece is refused when the end it would have if it were
whole is too large a number, even when the torrent ends before; and the total length of a torrent
stops at the largest number.

Main definitions:

* `Info.SafeNames` — every name of the torrent is safe;
* `Tiles` — the pieces tile the torrent.

Main results:

* `fileSegments_eq`, `segmentsFrom_eq` — the walk of the code is the walk over the lengths;
* `totalLength_eq` — the total length is the sum of the lengths, as far as numbers go;
* `pieces_tile_iff` — **the pieces tile the torrent exactly when neither limit is met**.
-/

import Tortillas.Layout
import Tortillas.OutputPaths

set_option relaxedAutoImplicit false
set_option autoImplicit false

namespace Tortillas

variable {H : Type}

namespace Info

/-- Every name of the torrent is safe. -/
structure SafeNames (info : Info H) : Prop where
  name : isSafeSegment info.name = true
  paths : ∀ file ∈ info.files, ∀ c ∈ file.path, isSafeSegment c = true

/-- The total length is the sum of the lengths, as far as numbers go. -/
theorem totalLength_eq (info : Info H) : info.totalLength = min info.fileLengths.sum usizeMax := by
  unfold totalLength fileLengths
  cases info.file with
  | single length md5sum =>
      have h : length.toNat < 2 ^ 64 := length.toNat_lt
      simp only [List.sum_cons, List.sum_nil]
      unfold usizeMax
      omega
  | multi files =>
      dsimp only
      rw [foldl_saturatingAdd _ (Nat.zero_le _), Nat.zero_add]

end Info

/-- The walk of the code is the walk over the lengths of the files. -/
theorem fileSegments_eq {name : Text} {start j : ℕ} {files : List InfoFile} {remaining acc : ℕ}
    {paths : ℕ → Path} (hpaths : ∀ k file, files[k]? = some file →
      relativePath name file.path = .ok (paths (j + k)))
    (hsum : acc + (files.map fun file => file.length.toNat).sum ≤ usizeMax) :
    ∃ left, fileSegments name start files remaining acc =
      .ok ((spans start j (files.map fun file => file.length.toNat) remaining acc).map
        (Segment.rename paths), left) := by
  induction files generalizing j remaining acc with
  | nil => exact ⟨remaining, rfl⟩
  | cons file files ih =>
      have hhead := hpaths 0 file rfl
      have htail : ∀ k file', files[k]? = some file' →
          relativePath name file'.path = .ok (paths (j + 1 + k)) := by
        intro k file' hk
        rw [Nat.add_assoc, Nat.add_comm 1 k]
        exact hpaths (k + 1) file' hk
      rw [List.map_cons, List.sum_cons] at hsum
      rw [fileSegments, if_neg (by omega), List.map_cons, spans]
      split
      · exact ih htail (by omega)
      · rw [hhead, Outcome.ok_bind, Nat.add_zero]
        dsimp only
        split
        · exact ⟨0, rfl⟩
        · obtain ⟨left, hleft⟩ := @ih (j + 1)
            (remaining - min remaining (file.length.toNat - (start - acc)))
            (acc + file.length.toNat) htail (by omega)
          rw [hleft]
          exact ⟨left, rfl⟩

section Walk

variable {info : Info H}

theorem relativePath_of_safeNames (hsafe : info.SafeNames) {file : InfoFile}
    (hfile : file ∈ info.files) :
    relativePath info.name file.path = .ok (outputPath info.name file.path) := by
  refine relativePath_eq_ok.2 ⟨rfl, ?_⟩
  intro c hc
  unfold outputPath at hc
  split at hc
  · exact hsafe.paths file hfile c hc
  · rcases List.mem_cons.1 hc with rfl | hc
    · exact hsafe.name
    · exact hsafe.paths file hfile c hc

/-- The segments from a start on are those of the walk, as long as the lengths add up. -/
theorem segmentsFrom_eq (hsafe : info.SafeNames) (hsum : info.fileLengths.sum ≤ usizeMax)
    (start remaining : ℕ) :
    ∃ left, info.segmentsFrom start remaining =
      .ok ((spans start 0 info.fileLengths remaining 0).map
        (Segment.rename fun k => info.outputPaths.getD k []), left) := by
  unfold Info.segmentsFrom Info.fileLengths Info.outputPaths
  unfold Info.fileLengths at hsum
  cases hfile : info.file with
  | single length md5sum =>
      dsimp only
      rw [spans, pushTorrentPathSegment, if_pos hsafe.name]
      by_cases hstart : start < length.toNat
      · rw [if_pos hstart, if_neg (by omega)]
        dsimp only
        split
        · exact ⟨_, rfl⟩
        · exact ⟨_, rfl⟩
      · rw [if_neg hstart, if_pos (by omega)]
        exact ⟨remaining, rfl⟩
  | multi files =>
      dsimp only
      rw [hfile] at hsum
      refine fileSegments_eq ?_ (by simpa using hsum)
      intro k file hk
      have hmem : file ∈ info.files := by
        rw [Info.files, hfile]
        exact List.mem_of_getElem? hk
      rw [relativePath_of_safeNames hsafe hmem, Nat.zero_add]
      simp [hk]

end Walk

/-! ### The tiling -/

/-- **The pieces tile the torrent**, each by the given parts of files: the call for each piece answers
these parts, of which each lies inside its file; together they have the length of the piece, and those
of all pieces, one piece after the other, are the bytes of all files in order.  Beyond the last piece
the call fails. -/
structure Tiles (info : Info H) (parts : ℕ → List (Segment ℕ)) : Prop where
  ok : ∀ index < info.pieceCount, pieceToPaths (some info) index =
    .ok ((parts index).map (Segment.rename fun k => info.outputPaths.getD k []))
  sum : ∀ index < info.pieceCount, ((parts index).map Segment.length).sum =
    min ((index + 1) * info.pieceLength.toNat) info.totalLength - index * info.pieceLength.toNat
  inside : ∀ index < info.pieceCount, ∀ seg ∈ parts index,
    ∃ n, info.fileLengths[seg.path]? = some n ∧ seg.offset + seg.length ≤ n
  bytes : ((List.range info.pieceCount).flatMap fun index =>
    (parts index).flatMap Segment.positions) = layout 0 info.fileLengths
  beyond : ∀ index, info.pieceCount ≤ index → ∃ e, pieceToPaths (some info) index = .err e

section Tiling

variable {info : Info H}

/-- The number of bytes that a piece lays out. -/
def Info.remaining (info : Info H) (index : ℕ) : ℕ :=
  min ((index + 1) * info.pieceLength.toNat) info.totalLength - index * info.pieceLength.toNat

/-- The parts of a piece. -/
def Info.parts (info : Info H) (index : ℕ) : List (Segment ℕ) :=
  spans (index * info.pieceLength.toNat) 0 info.fileLengths (info.remaining index) 0

/-- A piece starts before the end of the torrent exactly when it is one of its pieces. -/
theorem Info.Consistent.lt_iff (hinfo : info.Consistent) {index : ℕ} :
    index < info.pieceCount ↔ index * info.pieceLength.toNat < info.totalLength := by
  rw [hinfo.count, lt_divCeil_iff hinfo.pos]

/-- The bytes of the parts of a piece. -/
theorem positions_parts (hsum : info.fileLengths.sum ≤ usizeMax) (index : ℕ) :
    (info.parts index).flatMap Segment.positions =
      ((layout 0 info.fileLengths).drop (index * info.pieceLength.toNat)).take
        info.pieceLength.toNat := by
  rw [Info.parts, positions_spans, Nat.sub_zero]
  refine List.take_eq_take_iff.2 ?_
  rw [List.length_drop, length_layout, Info.remaining, info.totalLength_eq,
    Nat.min_eq_left hsum, Nat.succ_mul]
  omega

theorem sum_parts (hsum : info.fileLengths.sum ≤ usizeMax) (index : ℕ) :
    ((info.parts index).map Segment.length).sum = info.remaining index := by
  rw [← length_flatMap_positions, positions_parts hsum, List.length_take, List.length_drop,
    length_layout, Info.remaining, info.totalLength_eq, Nat.min_eq_left hsum, Nat.succ_mul]
  omega

/-- Each piece is laid out over its parts. -/
theorem pieceToPaths_eq_parts (hinfo : info.Consistent) (hsafe : info.SafeNames)
    (hsum : info.fileLengths.sum ≤ usizeMax)
    (hmax : info.pieceCount * info.pieceLength.toNat ≤ usizeMax) {index : ℕ}
    (h : index < info.pieceCount) :
    pieceToPaths (some info) index =
      .ok ((info.parts index).map (Segment.rename fun k => info.outputPaths.getD k [])) := by
  have hend : (index + 1) * info.pieceLength.toNat ≤ info.pieceCount * info.pieceLength.toNat :=
    Nat.mul_le_mul_right _ h
  have hindex : index + 1 ≤ (index + 1) * info.pieceLength.toNat :=
    Nat.le_mul_of_pos_right _ hinfo.pos
  obtain ⟨left, hleft⟩ := segmentsFrom_eq hsafe hsum (index * info.pieceLength.toNat)
    (info.remaining index)
  -- what is left over is what the parts do not have, and they have all of it
  have hzero : left = 0 := by
    have htotal := sum_segmentsFrom hleft
    have hparts := sum_parts hsum index
    rw [List.map_map] at htotal
    change ((info.parts index).map Segment.length).sum + left = info.remaining index at htotal
    omega
  rw [hzero] at hleft
  exact pieceToPaths_eq_ok.2 ⟨by omega, by omega, hinfo.lt_iff.1 h, hleft⟩

/-- No piece is laid out beyond the last one. -/
theorem pieceToPaths_beyond (hinfo : info.Consistent) {index : ℕ} (h : info.pieceCount ≤ index) :
    ∃ e, pieceToPaths (some info) index = .err e := by
  have hend : info.totalLength ≤ index * info.pieceLength.toNat := by
    by_contra hlt
    exact absurd (hinfo.lt_iff.2 (Nat.lt_of_not_le hlt)) (Nat.not_lt_of_le h)
  rw [pieceToPaths_eq, if_pos hend]
  split
  · exact ⟨_, rfl⟩
  · exact ⟨_, rfl⟩

theorem tiles_parts (hinfo : info.Consistent) (hsafe : info.SafeNames)
    (hsum : info.fileLengths.sum ≤ usizeMax)
    (hmax : info.pieceCount * info.pieceLength.toNat ≤ usizeMax) : Tiles info info.parts where
  ok := fun _ h => pieceToPaths_eq_parts hinfo hsafe hsum hmax h
  sum := fun index _ => sum_parts hsum index
  inside := by
    intro index _ seg hseg
    obtain ⟨k, n, hpath, hget, hle⟩ := spans_inside hseg
    rw [Nat.zero_add] at hpath
    exact ⟨n, hpath ▸ hget, hle⟩
  bytes := by
    simp only [positions_parts hsum]
    rw [flatMap_pieces, List.take_of_length_le]
    rw [length_layout, hinfo.count, ← Nat.min_eq_left hsum, ← info.totalLength_eq]
    exact le_divCeil_mul hinfo.pos
  beyond := fun _ h => pieceToPaths_beyond hinfo h

end Tiling

/-- **The pieces tile the torrent exactly when machine arithmetic does not get in the way**: the
lengths of the files add up to a number, and so does the end of the last piece if it were whole. -/
theorem pieces_tile_iff (info : Info H) (hinfo : info.Consistent) (hsafe : info.SafeNames) :
    (∃ parts, Tiles info parts) ↔
      info.fileLengths.sum ≤ usizeMax ∧
        info.pieceCount * info.pieceLength.toNat ≤ usizeMax := by
  constructor
  · rintro ⟨parts, h⟩
    refine ⟨?_, ?_⟩
    · -- the pieces have the total length, and the parts are all bytes
      have hlen := congrArg List.length h.bytes
      have hpieces : ((List.range info.pieceCount).flatMap fun index =>
          (parts index).flatMap Segment.positions).length =
            min (info.pieceCount * info.pieceLength.toNat) info.totalLength := by
        rw [List.length_flatMap, ← sum_pieces]
        refine congrArg List.sum (List.map_congr_left ?_)
        intro index hindex
        rw [length_flatMap_positions, h.sum index (List.mem_range.1 hindex)]
      rw [hpieces, length_layout] at hlen
      have htotal := info.totalLength_le
      omega
    · rcases Nat.eq_zero_or_pos info.pieceCount with hzero | hpos
      · rw [hzero, Nat.zero_mul]
        exact Nat.zero_le _
      · have hlast := h.ok (info.pieceCount - 1) (by omega)
        have hend := (pieceToPaths_eq_ok.1 hlast).2.1
        rwa [Nat.sub_add_cancel hpos] at hend
  · rintro ⟨hsum, hmax⟩
    exact ⟨info.parts, tiles_parts hinfo hsafe hsum hmax⟩

namespace Sample

theorem consistent_apart : apart.Consistent := ⟨by decide, by decide⟩

theorem safeNames_apart : apart.SafeNames := ⟨by decide, by decide⟩

/-- A torrent of two pieces whose second one would end beyond the largest number. -/
def vast : Info Bytes :=
  { colliding with pieceLength := 9223372036854775808, file := .single 9223372036854775809 none }

end Sample

theorem pieces_tile_sample : ∃ parts, Tiles Sample.apart parts :=
  (pieces_tile_iff Sample.apart Sample.consistent_apart Sample.safeNames_apart).2 (by decide)

/-- The last piece of a torrent is refused, though it ends where the torrent ends. -/
theorem last_piece_refused :
    Sample.vast.Consistent ∧ Sample.vast.SafeNames ∧ 1 < Sample.vast.pieceCount ∧
      pieceToPaths (some Sample.vast) 1 = .err "piece index 1 overflows usize math" := by
  refine ⟨⟨by decide, by decide⟩, ⟨by decide, by decide⟩, by decide, ?_⟩
  rw [pieceToPaths_eq, if_pos (by decide)]
  decide

end Tortillas
