/-
**Files hold what was written last.**

With in-file storage the blocks of a piece are written straight into the output files, and read back from there.  A
read and a write each cut a range of a piece into segments of files.  Both go through the bytes of all files in
order: the range of a piece is a range of this sequence, and its segments have the bytes of that range in order.
So whatever the boundaries of pieces, blocks and files are, a read finds for each byte what was written there last,
and a write to a piece leaves every byte of another piece alone.

A write that is answered may not have been made: its files are not flushed.  What is in the files is what has been
written in time; over a faithful store, which reports whatever it cuts short, that is everything.

Main definitions:

* `Info.bytesBelow` — the bytes of all files in order, below an output folder;
* `WriteCall`, `WriteCall.performAll` — calls that write, and sequences of them that all succeed;
* `lastWritten` — the byte that was written last at a place in a piece;
* `FilePieceManager.reaches`, `lastPut` — the bytes that are written in time, and the last one at a place.

Main results:

* `positions_rangeSegments`, `positions_pieceToPaths` — the segments of a range of a piece have its bytes in order;
* `nodup_bytesBelow` — no two bytes are at the same place when output paths are distinct;
* `reads_return_last_writes` — **reads return what was written last**.
-/

import Tortillas.StoredBytes
import Tortillas.PieceLengths

set_option relaxedAutoImplicit false
set_option autoImplicit false

namespace Tortillas

variable {H : Type}

/-! ### A range of a piece -/

/-- **The segments of a range are its bytes, in order**, and none of them is empty. -/
theorem positions_rangeSegments {segs found : List (Segment Path)} {skipped remaining : ℕ} (hpos : 0 < remaining)
    (h : rangeSegments segs skipped remaining = .ok found) :
    found.flatMap Segment.positions = ((segs.flatMap Segment.positions).drop skipped).take remaining ∧
      (found.map Segment.length).sum = remaining ∧ ∀ seg ∈ found, 0 < seg.length := by
  induction segs generalizing skipped remaining found with
  | nil => cases h
  | cons seg segs ih =>
      rw [rangeSegments] at h
      rw [List.flatMap_cons]
      split at h
      · rename_i hskip
        have hnil : seg.positions.drop skipped = [] :=
          List.drop_of_length_le (by rw [Segment.length_positions]; exact hskip)
        rw [List.drop_append, hnil, List.nil_append, Segment.length_positions]
        exact ih hpos h
      · rename_i htake
        have hhead := seg.positions_cut skipped remaining
        have hzero : skipped - seg.positions.length = 0 := by
          rw [Segment.length_positions]
          omega
        have hlen : (seg.positions.drop skipped).length = seg.length - skipped := by
          rw [List.length_drop, Segment.length_positions]
        rw [List.drop_append, hzero, List.drop_zero, List.take_append, hlen]
        dsimp only at h
        split at h
        · rename_i hdone
          cases h
          have hnone : remaining - (seg.length - skipped) = 0 := by omega
          rw [hnone, List.take_zero, List.append_nil, List.flatMap_singleton]
          refine ⟨hhead, ?_, ?_⟩
          · simp only [List.map_cons, List.map_nil, List.sum_cons, List.sum_nil]
            omega
          · intro seg' hseg'
            cases List.mem_singleton.1 hseg'
            dsimp only
            omega
        · rename_i hmore
          obtain ⟨rest, hrest, hfound⟩ := Outcome.bind_eq_ok.1 h
          cases hfound
          obtain ⟨hbytes, hsum, hall⟩ := ih (by omega) hrest
          have hleft : remaining - min remaining (seg.length - skipped) = remaining - (seg.length - skipped) := by omega
          refine ⟨?_, ?_, ?_⟩
          · rw [List.flatMap_cons, hhead, hbytes, List.drop_zero, hleft]
          · rw [List.map_cons, List.sum_cons, hsum]
            dsimp only
            omega
          · intro seg' hseg'
            rcases List.mem_cons.1 hseg' with rfl | hmem
            · dsimp only
              omega
            · exact hall seg' hmem

/-- A range that lies in the segments is found. -/
theorem exists_rangeSegments {segs : List (Segment Path)} {skipped remaining : ℕ} (hpos : 0 < remaining)
    (h : skipped + remaining ≤ (segs.map Segment.length).sum) :
    ∃ found, rangeSegments segs skipped remaining = .ok found := by
  induction segs generalizing skipped remaining with
  | nil =>
      rw [List.map_nil, List.sum_nil] at h
      omega
  | cons seg segs ih =>
      rw [List.map_cons, List.sum_cons] at h
      rw [rangeSegments]
      split
      · exact ih hpos (by omega)
      · dsimp only
        split
        · exact ⟨_, rfl⟩
        · obtain ⟨rest, hrest⟩ : ∃ rest, rangeSegments segs 0
              (remaining - min remaining (seg.length - skipped)) = .ok rest := ih (by omega) (by omega)
          exact ⟨_, by rw [hrest]; rfl⟩

/-! ### All bytes of a torrent -/

theorem Segment.positions_rename {P Q : Type} (f : P → Q) (seg : Segment P) :
    (seg.rename f).positions = seg.positions.map fun pos => (f pos.1, pos.2) := by
  rw [positions, positions, List.map_map]
  rfl

/-- The walk of the code is the walk over the lengths, when it comes to its end. -/
theorem fileSegments_spans {name : Text} {start j : ℕ} {files : List InfoFile} {remaining acc left : ℕ}
    {segs : List (Segment Path)} {paths : ℕ → Path}
    (hpaths : ∀ k file, files[k]? = some file → paths (j + k) = outputPath name file.path)
    (h : fileSegments name start files remaining acc = .ok (segs, left)) :
    segs = (spans start j (files.map fun file => file.length.toNat) remaining acc).map (Segment.rename paths) := by
  induction files generalizing j remaining acc left segs with
  | nil =>
      cases h
      rfl
  | cons file files ih =>
      have htail : ∀ k file', files[k]? = some file' → paths (j + 1 + k) = outputPath name file'.path := by
        intro k file' hk
        rw [Nat.add_assoc, Nat.add_comm 1 k]
        exact hpaths (k + 1) file' hk
      rw [fileSegments] at h
      rw [List.map_cons, spans]
      split at h
      · cases h
      · split at h
        · rename_i hskip
          rw [if_pos hskip]
          exact ih htail h
        · rename_i htake
          rw [if_neg htake]
          obtain ⟨path, hpath, h⟩ := Outcome.bind_eq_ok.1 h
          have hhead : paths j = path := (hpaths 0 file rfl).trans (relativePath_eq_ok.1 hpath).1.symm
          dsimp only at h ⊢
          split at h
          · rename_i hdone
            cases h
            rw [if_pos hdone, List.map_singleton, Segment.rename, hhead]
          · rename_i hmore
            rw [if_neg hmore]
            obtain ⟨⟨rest, left'⟩, hwalk, hfound⟩ := Outcome.bind_eq_ok.1 h
            cases hfound
            rw [List.map_cons, Segment.rename, hhead, ih htail hwalk]

theorem segmentsFrom_spans {info : Info H} {start remaining left : ℕ} {segs : List (Segment Path)}
    (h : info.segmentsFrom start remaining = .ok (segs, left)) :
    segs = (spans start 0 info.fileLengths remaining 0).map
      (Segment.rename fun k => info.outputPaths.getD k []) := by
  unfold Info.segmentsFrom at h
  unfold Info.fileLengths Info.outputPaths
  cases hfile : info.file with
  | single length md5sum =>
      rw [hfile] at h
      dsimp only at h ⊢
      rw [spans]
      split at h
      · rename_i hstart
        obtain ⟨path, hpath, hfound⟩ := Outcome.bind_eq_ok.1 h
        cases hfound
        have hname : path = [info.name] := by
          unfold pushTorrentPathSegment at hpath
          split at hpath
          · cases hpath
            rfl
          · cases hpath
        rw [if_neg (by omega), hname]
        dsimp only
        split
        · rfl
        · rfl
      · rename_i hstart
        cases h
        rw [if_pos (by omega)]
        rfl
  | multi files =>
      rw [hfile] at h
      dsimp only at h ⊢
      refine fileSegments_spans ?_ h
      intro k file hk
      rw [Nat.zero_add]
      simp [hk]

/-- The bytes of all files in order, as positions in the output files below a folder. -/
def Info.bytesBelow (info : Info H) (base : Path) : List (Path × ℕ) :=
  (layout 0 info.fileLengths).map fun pos => (base ++ info.outputPaths.getD pos.1 [], pos.2)

/-- **The segments of a piece are its bytes, in order.** -/
theorem positions_pieceToPaths {info : Info H} {index : ℕ} {segs : List (Segment Path)}
    (h : pieceToPaths (some info) index = .ok segs) (base : Path) :
    (segs.map (FilePieceManager.under base)).flatMap Segment.positions =
      ((info.bytesBelow base).drop (index * info.pieceLength.toNat)).take (info.remaining index) := by
  obtain ⟨-, -, -, hfound⟩ := pieceToPaths_eq_ok.1 h
  rw [segmentsFrom_spans hfound, Info.bytesBelow, ← List.map_drop, ← List.map_take, Info.remaining,
    ← Nat.sub_zero (index * info.pieceLength.toNat), ← positions_spans, Nat.sub_zero, List.map_map, List.flatMap_map,
    List.map_flatMap]
  refine congrArg (List.flatMap · _) (funext fun seg => ?_)
  exact Segment.positions_rename (fun k => base ++ info.outputPaths.getD k []) seg

/-- Which bytes there are. -/
theorem mem_layout {j k o : ℕ} {ns : List ℕ} :
    (k, o) ∈ layout j ns ↔ j ≤ k ∧ ∃ n, ns[k - j]? = some n ∧ o < n := by
  induction ns generalizing j with
  | nil => simp [layout]
  | cons n ns ih =>
      rw [layout, List.mem_append, ih]
      constructor
      · rintro (hhere | ⟨hle, n', hn', ho⟩)
        · obtain ⟨o', ho', heq⟩ := List.mem_map.1 hhere
          cases heq
          exact ⟨le_rfl, n, by rw [Nat.sub_self]; rfl, List.mem_range.1 ho'⟩
        · refine ⟨by omega, n', ?_, ho⟩
          rw [show k - j = k - (j + 1) + 1 by omega]
          exact hn'
      · rintro ⟨hle, n', hn', ho⟩
        rcases Nat.eq_or_lt_of_le hle with rfl | hlt
        · rw [Nat.sub_self] at hn'
          cases hn'
          exact .inl (List.mem_map.2 ⟨o, List.mem_range.2 ho, rfl⟩)
        · refine .inr ⟨hlt, n', ?_, ho⟩
          rw [show k - j = k - (j + 1) + 1 by omega] at hn'
          exact hn'

theorem nodup_layout (j : ℕ) (ns : List ℕ) : (layout j ns).Nodup := by
  induction ns generalizing j with
  | nil => exact List.nodup_nil
  | cons n ns ih =>
      rw [layout, List.nodup_append]
      refine ⟨List.nodup_range.map fun a b h => (Prod.mk.inj h).2, ih (j + 1), ?_⟩
      rintro a ha ⟨k, o⟩ hb rfl
      obtain ⟨_, _, heq⟩ := List.mem_map.1 ha
      have hle := (mem_layout.1 hb).1
      have hk := (Prod.mk.inj heq).1
      omega

theorem length_outputPaths (info : Info H) : info.outputPaths.length = info.fileLengths.length := by
  unfold Info.outputPaths Info.fileLengths
  cases info.file with
  | single length md5sum => rfl
  | multi files => rw [List.length_map, List.length_map]

theorem length_bytesBelow (info : Info H) (base : Path) :
    (info.bytesBelow base).length = info.fileLengths.sum := by
  rw [Info.bytesBelow, List.length_map, length_layout]

/-- **No two bytes are at the same place** when output paths are distinct. -/
theorem nodup_bytesBelow {info : Info H} (h : info.outputPaths.Nodup) (base : Path) :
    (info.bytesBelow base).Nodup := by
  refine (nodup_layout 0 info.fileLengths).map_on ?_
  rintro ⟨k, o⟩ hk ⟨k', o'⟩ hk' heq
  have hlt : ∀ {k o : ℕ}, (k, o) ∈ layout 0 info.fileLengths → k < info.outputPaths.length := by
    intro k o hmem
    obtain ⟨-, n, hn, -⟩ := mem_layout.1 hmem
    rw [length_outputPaths]
    exact (List.getElem?_eq_some_iff.1 hn).1
  obtain ⟨hpath, rfl⟩ := Prod.mk.inj heq
  have hpath' := List.append_cancel_left hpath
  rw [List.getD_eq_getElem _ _ (hlt hk), List.getD_eq_getElem _ _ (hlt hk')] at hpath'
  rw [(h.getElem_inj_iff).1 hpath']

/-- Pieces do not overlap. -/
theorem Info.same_place (info : Info H) {i j x y : ℕ} (hx : x < info.remaining i) (hy : y < info.remaining j)
    (h : i * info.pieceLength.toNat + x = j * info.pieceLength.toNat + y) : i = j ∧ x = y := by
  unfold Info.remaining at hx hy
  rcases Nat.lt_trichotomy i j with hlt | rfl | hgt
  · have hmul : (i + 1) * info.pieceLength.toNat ≤ j * info.pieceLength.toNat := Nat.mul_le_mul_right _ hlt
    omega
  · omega
  · have hmul : (j + 1) * info.pieceLength.toNat ≤ i * info.pieceLength.toNat := Nat.mul_le_mul_right _ hgt
    omega

/-! ### Reading and writing -/

namespace FilePieceManager

variable {info : Info H} {base : Path} {fs : FileStore Path} {index offset : ℕ}

/-- The segments of a range of a piece, and where its bytes are in the torrent. -/
theorem pieceRangeSegments_spec {length : ℕ} {segs : List (Segment Path)} (hpos : 0 < length)
    (h : pieceRangeSegments (some info) index offset length = .ok segs) (base : Path) :
    (segs.map (under base)).flatMap Segment.positions =
        ((info.bytesBelow base).drop (index * info.pieceLength.toNat + offset)).take length ∧
      ((segs.map (under base)).map Segment.length).sum = length ∧ (∀ seg ∈ segs.map (under base), 0 < seg.length) ∧
      offset + length ≤ info.remaining index ∧ ∃ whole, pieceToPaths (some info) index = .ok whole := by
  rw [pieceRangeSegments, if_neg hpos.ne'] at h
  obtain ⟨whole, hwhole, hrange⟩ := Outcome.bind_eq_ok.1 h
  obtain ⟨hbytes, hsum, hall⟩ := positions_rangeSegments hpos hrange
  have hlen : (segs.flatMap Segment.positions).length = length := by rw [length_flatMap_positions, hsum]
  have hinside : offset + length ≤ info.remaining index := by
    rw [hbytes, List.length_take, List.length_drop, length_flatMap_positions, (sum_pieceToPaths hwhole).2] at hlen
    unfold Info.remaining
    omega
  have hunder : ∀ l : List (Segment Path), (l.map (under base)).flatMap Segment.positions =
      (l.flatMap Segment.positions).map fun pos => (base ++ pos.1, pos.2) := by
    intro l
    rw [List.flatMap_map, List.map_flatMap]
    exact congrArg (List.flatMap · l) (funext fun seg => Segment.positions_rename (base ++ ·) seg)
  refine ⟨?_, ?_, ?_, hinside, whole, hwhole⟩
  · rw [hunder, hbytes, List.map_take, List.map_drop, ← hunder, positions_pieceToPaths hwhole, List.drop_take,
      List.drop_drop, List.take_take, Nat.min_eq_left (by omega)]
  · rw [List.map_map]
    exact hsum
  · intro seg hseg
    obtain ⟨a, ha, rfl⟩ := List.mem_map.1 hseg
    exact hall a ha

variable (info base) in
/-- The byte of the torrent with a number, as the output files have it. -/
def byteIn (fs : FileStore Path) (y : ℕ) : Option UInt8 := (info.bytesBelow base)[y]?.bind fs.byteAt

/-- The bytes at a range of positions are the bytes with these numbers. -/
theorem map_byteIn {start length : ℕ} (h : start + length ≤ (info.bytesBelow base).length) :
    (((info.bytesBelow base).drop start).take length).map fs.byteAt =
      (List.range' start length).map (byteIn info base fs) := by
  refine List.ext_getElem? fun k => ?_
  rw [List.getElem?_map, List.getElem?_map, List.getElem?_take, List.getElem?_drop]
  split
  · rename_i hk
    rw [List.getElem?_range' hk, Nat.one_mul, Option.map_some, byteIn, List.getElem?_eq_getElem (by omega)]
    rfl
  · rename_i hk
    rw [List.getElem?_eq_none (by simpa using hk)]
    rfl

/-- A piece that is laid out lies in the torrent. -/
theorem le_length_bytesBelow {whole : List (Segment Path)} (h : pieceToPaths (some info) index = .ok whole)
    (base : Path) :
    index * info.pieceLength.toNat + info.remaining index ≤ (info.bytesBelow base).length := by
  obtain ⟨hstart, hsum⟩ := sum_pieceToPaths h
  have htotal : info.totalLength ≤ (info.bytesBelow base).length := by
    rw [length_bytesBelow, info.totalLength_eq]
    exact Nat.min_le_left _ _
  unfold Info.remaining
  omega

/-- A range that lies in a piece is found. -/
theorem exists_pieceRangeSegments {whole : List (Segment Path)} {length : ℕ}
    (hwhole : pieceToPaths (some info) index = .ok whole) (hpos : 0 < length)
    (hinside : offset + length ≤ info.remaining index) :
    ∃ segs, pieceRangeSegments (some info) index offset length = .ok segs := by
  rw [pieceRangeSegments, if_neg hpos.ne', hwhole, Outcome.ok_bind]
  refine exists_rangeSegments hpos ?_
  rw [(sum_pieceToPaths hwhole).2]
  exact hinside

/-- **Reading a range of a piece reads the bytes with its numbers.** -/
theorem readPieceRange_eq_some_iff {length : ℕ} {found : Bytes} (hpos : 0 < length) :
    readPieceRange ⟨some base, some info⟩ fs index offset length = some found ↔
      (∃ whole, pieceToPaths (some info) index = .ok whole) ∧ offset + length ≤ info.remaining index ∧
        (List.range' (index * info.pieceLength.toNat + offset) length).map (byteIn info base fs) =
          found.map some := by
  unfold readPieceRange
  dsimp only
  cases hsegs : pieceRangeSegments (some info) index offset length with
  | ok segs =>
      obtain ⟨hbytes, -, hall, hinside, whole, hwhole⟩ := pieceRangeSegments_spec hpos hsegs base
      have hle := le_length_bytesBelow hwhole base
      dsimp only
      rw [FileStore.readSegments_eq_some_iff hall, hbytes, map_byteIn (by omega)]
      exact ⟨fun h => ⟨⟨whole, hwhole⟩, hinside, h⟩, fun h => h.2.2⟩
  | err e =>
      refine iff_of_false nofun ?_
      rintro ⟨⟨whole, hwhole⟩, hinside, -⟩
      obtain ⟨segs, hok⟩ := exists_pieceRangeSegments hwhole hpos hinside
      cases hsegs.symm.trans hok
  | panic =>
      refine iff_of_false nofun ?_
      rintro ⟨⟨whole, hwhole⟩, hinside, -⟩
      obtain ⟨segs, hok⟩ := exists_pieceRangeSegments hwhole hpos hinside
      cases hsegs.symm.trans hok

/-- Whether the byte at a place in a piece is written before the call answers, when a range of the piece is
written. -/
def reaches (m : FilePieceManager H) (index offset length : ℕ) (env : WriteEnv) (x : ℕ) : Bool :=
  match m.path, pieceRangeSegments m.info index offset length with
  | some base, .ok segs => decide (offset ≤ x) && env.reaches false (segs.map (under base)) (x - offset)
  | _, _ => false

/-- The position of a byte of a range is that of its number. -/
theorem getElem?_positions {length : ℕ} {segs : List (Segment Path)} (hpos : 0 < length)
    (h : pieceRangeSegments (some info) index offset length = .ok segs) (base : Path) {m : ℕ} (hm : m < length) :
    ((segs.map (under base)).flatMap Segment.positions)[m]? =
      (info.bytesBelow base)[index * info.pieceLength.toNat + offset + m]? := by
  rw [(pieceRangeSegments_spec hpos h base).1, List.getElem?_take, if_pos hm, List.getElem?_drop]

/-- What is said of a byte that is written in time. -/
theorem of_reaches {length x : ℕ} {env : WriteEnv}
    (h : reaches ⟨some base, some info⟩ index offset length env x = true) :
    ∃ segs, pieceRangeSegments (some info) index offset length = .ok segs ∧ offset ≤ x ∧ x < offset + length ∧
      env.reaches false (segs.map (under base)) (x - offset) = true := by
  unfold reaches at h
  dsimp only at h
  split at h
  · rename_i base' segs hbase hsegs
    cases hbase
    rw [Bool.and_eq_true, decide_eq_true_eq] at h
    obtain ⟨hle, hreach⟩ := h
    refine ⟨segs, hsegs, hle, ?_, hreach⟩
    have hlt := WriteEnv.lt_of_reaches hreach
    rcases Nat.eq_zero_or_pos length with rfl | hpos
    · rw [pieceRangeSegments, if_pos rfl] at hsegs
      cases hsegs
      exact absurd hlt (Nat.not_lt_zero _)
    · rw [(pieceRangeSegments_spec hpos hsegs base).2.1] at hlt
      omega
  · cases h

/-- **What has been written in time is in the files.** -/
theorem byteIn_writePieceRange (hnodup : info.outputPaths.Nodup) {data : Bytes} {env : WriteEnv} {x : ℕ}
    (h : reaches ⟨some base, some info⟩ index offset data.length env x = true) :
    (∃ whole, pieceToPaths (some info) index = .ok whole) ∧ x < info.remaining index ∧
      byteIn info base (writePieceRange ⟨some base, some info⟩ fs index offset data env).files
        (index * info.pieceLength.toNat + x) = data[x - offset]? := by
  obtain ⟨segs, hsegs, hle, hlt, hreach⟩ := of_reaches h
  have hpos : 0 < data.length := by omega
  obtain ⟨hbytes, hsum, -, hinside, whole, hwhole⟩ := pieceRangeSegments_spec hpos hsegs base
  have hend := le_length_bytesBelow hwhole base
  refine ⟨⟨whole, hwhole⟩, by omega, ?_⟩
  have hnumber : index * info.pieceLength.toNat + offset + (x - offset) = index * info.pieceLength.toNat + x := by
    omega
  obtain ⟨pos, hat⟩ : ∃ pos, (info.bytesBelow base)[index * info.pieceLength.toNat + x]? = some pos :=
    ⟨_, List.getElem?_eq_getElem (by omega)⟩
  have hat' : ((segs.map (under base)).flatMap Segment.positions)[x - offset]? = some pos := by
    rw [getElem?_positions hpos hsegs base (by omega), hnumber, hat]
  unfold writePieceRange
  simp only [hsegs, byteIn, hat, Option.bind_some]
  refine FileStore.byteAt_writeSegments_of_reaches hsum.symm ?_ hat' hreach
  rw [hbytes]
  exact ((nodup_bytesBelow hnodup base).sublist (List.drop_sublist _ _)).sublist (List.take_sublist _ _)

/-- A byte that is not written in time stays. -/
theorem byteIn_writePieceRange_of_not_reaches (hnodup : info.outputPaths.Nodup) {data : Bytes} {env : WriteEnv}
    {i x : ℕ} {b : UInt8} (hx : x < info.remaining i)
    (hb : byteIn info base fs (i * info.pieceLength.toNat + x) = some b)
    (hout : i = index → reaches ⟨some base, some info⟩ index offset data.length env x = false) :
    byteIn info base (writePieceRange ⟨some base, some info⟩ fs index offset data env).files
      (i * info.pieceLength.toNat + x) = some b := by
  unfold writePieceRange
  dsimp only
  cases hsegs : pieceRangeSegments (some info) index offset data.length with
  | err e => exact hb
  | panic => exact hb
  | ok segs =>
      dsimp only
      obtain ⟨pos, hpos, hbyte⟩ := Option.bind_eq_some_iff.1 hb
      rw [byteIn, hpos, Option.bind_some]
      refine FileStore.byteAt_writeSegments_of_not_reaches hbyte fun m hm => ?_
      rcases Nat.lt_or_ge m data.length with hlt | hge
      · -- the position of the byte occurs once
        rw [getElem?_positions (by omega) hsegs base hlt] at hm
        obtain ⟨-, -, -, hinside, -⟩ := pieceRangeSegments_spec (by omega) hsegs base
        have hsame := (List.getElem?_inj (List.getElem?_eq_some_iff.1 hm).1 (nodup_bytesBelow hnodup base)).1
          (hm.trans hpos.symm)
        obtain ⟨rfl, hplace⟩ := info.same_place (j := index) (y := offset + m) hx (by omega) (by omega)
        have hno := hout rfl
        unfold reaches at hno
        simp only [hsegs, Bool.and_eq_false_iff, decide_eq_false_iff_not] at hno
        rcases hno with hno | hno
        · omega
        · rwa [hplace, Nat.add_sub_cancel_left] at hno
      · have hnone : ((segs.map (under base)).flatMap Segment.positions)[m]? = none := by
          refine List.getElem?_eq_none ?_
          rw [length_flatMap_positions]
          rcases Nat.eq_zero_or_pos data.length with hzero | hlen
          · rw [pieceRangeSegments, if_pos hzero] at hsegs
            cases hsegs
            exact Nat.zero_le _
          · rw [(pieceRangeSegments_spec hlen hsegs base).2.1]
            exact hge
        cases hnone.symm.trans hm

/-- A byte that is there after a write was there before, or has been written in time, or is a zero before one of the
same file that has been. -/
theorem byteAt_writePieceRange_cases {data : Bytes} {env : WriteEnv} {pos : Path × ℕ} {b : UInt8}
    (h : (writePieceRange ⟨some base, some info⟩ fs index offset data env).files.byteAt pos = some b) :
    fs.byteAt pos = some b ∨
      (∃ x, reaches ⟨some base, some info⟩ index offset data.length env x = true ∧
        (info.bytesBelow base)[index * info.pieceLength.toNat + x]? = some pos) ∨
      (b = 0 ∧ ∃ x o, reaches ⟨some base, some info⟩ index offset data.length env x = true ∧
        (info.bytesBelow base)[index * info.pieceLength.toNat + x]? = some (pos.1, o) ∧ pos.2 < o) := by
  unfold writePieceRange at h
  dsimp only at h
  cases hsegs : pieceRangeSegments (some info) index offset data.length with
  | err e =>
      rw [hsegs] at h
      exact .inl h
  | panic =>
      rw [hsegs] at h
      exact .inl h
  | ok segs =>
      rw [hsegs] at h
      -- a byte that is written has a number in the torrent
      have hnumber : ∀ {m : ℕ} {pos' : Path × ℕ},
          ((segs.map (under base)).flatMap Segment.positions)[m]? = some pos' →
          env.reaches false (segs.map (under base)) m = true →
          reaches ⟨some base, some info⟩ index offset data.length env (offset + m) = true ∧
            (info.bytesBelow base)[index * info.pieceLength.toNat + (offset + m)]? = some pos' := by
        intro m pos' hm hreach
        constructor
        · unfold reaches
          simp only [hsegs, Nat.le_add_right, decide_true, Bool.true_and, Nat.add_sub_cancel_left]
          exact hreach
        · have hlt := WriteEnv.lt_of_reaches hreach
          rcases Nat.eq_zero_or_pos data.length with hzero | hpos
          · rw [pieceRangeSegments, if_pos hzero] at hsegs
            cases hsegs
            cases hm
          · rw [(pieceRangeSegments_spec hpos hsegs base).2.1] at hlt
            rw [← Nat.add_assoc, ← getElem?_positions hpos hsegs base hlt]
            exact hm
      rcases FileStore.byteAt_writeSegments_cases h with hold | ⟨m, hm, hreach⟩ | ⟨hzero, m, o, hm, hlt, hreach⟩
      · exact .inl hold
      · exact .inr (.inl ⟨offset + m, hnumber hm hreach⟩)
      · obtain ⟨hreach', hat⟩ := hnumber hm hreach
        exact .inr (.inr ⟨hzero, offset + m, o, hreach', hat, hlt⟩)

/-- A write that succeeds and leaves nothing to be written has written every byte. -/
theorem reaches_of_ok {data : Bytes} {env : WriteEnv} {x : ℕ}
    (hok : (writePieceRange ⟨some base, some info⟩ fs index offset data env).ok = true)
    (hlate : (writePieceRange ⟨some base, some info⟩ fs index offset data env).late = [])
    (hle : offset ≤ x) (hlt : x < offset + data.length) :
    reaches ⟨some base, some info⟩ index offset data.length env x = true := by
  unfold writePieceRange at hok hlate
  unfold reaches
  dsimp only at hok hlate ⊢
  cases hsegs : pieceRangeSegments (some info) index offset data.length with
  | err e => simp [hsegs] at hok
  | panic => simp [hsegs] at hok
  | ok segs =>
      simp only [hsegs] at hok hlate ⊢
      rw [decide_eq_true hle, Bool.true_and]
      exact FileStore.reaches_of_ok hok hlate (pieceRangeSegments_spec (by omega) hsegs base).2.1.symm (by omega)

/-- `read_piece_block`. -/
def readPieceBlock (m : FilePieceManager H) (fs : FileStore Path) (index offset length : ℕ) : Option Bytes :=
  m.readPieceRange fs index offset length

/-- Every write to a piece leaves what is read of another piece alone. -/
theorem readPieceBlock_of_other (hnodup : info.outputPaths.Nodup) {i : ℕ} (hi : i ≠ index) {length : ℕ} {found : Bytes}
    (h : readPieceBlock ⟨some base, some info⟩ fs index offset length = some found) (offset' : ℕ) (data : Bytes)
    (env : WriteEnv) :
    readPieceBlock ⟨some base, some info⟩ (writePieceRange ⟨some base, some info⟩ fs i offset' data env).files
      index offset length = some found := by
  unfold readPieceBlock at h ⊢
  rcases Nat.eq_zero_or_pos length with rfl | hpos
  · exact h
  · obtain ⟨hwhole, hinside, hbytes⟩ := (readPieceRange_eq_some_iff hpos).1 h
    refine (readPieceRange_eq_some_iff hpos).2 ⟨hwhole, hinside, ?_⟩
    rw [← hbytes]
    refine List.map_congr_left fun y hy => ?_
    have hrange := List.mem_range'_1.1 hy
    obtain ⟨b, -, hb⟩ := List.mem_map.1 (hbytes ▸ List.mem_map_of_mem hy)
    obtain ⟨x, rfl⟩ := Nat.exists_eq_add_of_le (Nat.le_trans (Nat.le_add_right _ offset) hrange.1)
    rw [byteIn_writePieceRange_of_not_reaches hnodup (by omega) hb.symm fun heq => absurd heq.symm hi, hb]

end FilePieceManager

/-! ### What was written last -/

/-- A call that writes into a piece. -/
inductive WriteCall
  | writeBlock (index offset : ℕ) (block : Bytes)
  | recv (index : ℕ) (data : Bytes)

namespace WriteCall

/-- The call. -/
def perform (m : FilePieceManager H) (fs : FileStore Path) (env : WriteEnv) : WriteCall → WriteResult Path
  | writeBlock index offset block => m.writeBlock fs index offset block env
  | recv index data => m.recv fs index data env

/-- Calls one after the other, all of which have to succeed. -/
def performAll (m : FilePieceManager H) : FileStore Path → List (WriteCall × WriteEnv) → Option (FileStore Path)
  | fs, [] => some fs
  | fs, (call, env) :: calls =>
      if (call.perform m fs env).ok then performAll m (call.perform m fs env).files calls else none

/-- The byte that a call writes at a place in a piece, if it writes there. -/
def byteFor (index x : ℕ) : WriteCall → Option UInt8
  | writeBlock i offset block => if i = index ∧ offset ≤ x then block[x - offset]? else none
  | recv i data => if i = index then data[x]? else none

/-- The byte that a call writes at a place in a piece in time. -/
def puts (m : FilePieceManager H) (env : WriteEnv) (index x : ℕ) : WriteCall → Option UInt8
  | writeBlock i offset block =>
      if i = index ∧ m.reaches i offset block.length env x = true then block[x - offset]? else none
  | recv i data => if i = index ∧ m.reaches i 0 data.length env x = true then data[x]? else none

end WriteCall

/-- The byte that was written last at a place in a piece; the first call is the oldest. -/
def lastWritten (index x : ℕ) : List (WriteCall × WriteEnv) → Option UInt8
  | [] => none
  | (call, _) :: calls => (lastWritten index x calls).or (call.byteFor index x)

/-- The byte that was written last in time. -/
def lastPut (m : FilePieceManager H) (index x : ℕ) : List (WriteCall × WriteEnv) → Option UInt8
  | [] => none
  | (call, env) :: calls => (lastPut m index x calls).or (call.puts m env index x)

namespace FilePieceManager

section Last

variable {info : Info H} {base : Path} {fs fs' : FileStore Path}

variable (info base) in
/-- A place in a piece holds a byte. -/
structure Holds (fs : FileStore Path) (index x : ℕ) (b : UInt8) : Prop where
  laid : ∃ whole, pieceToPaths (some info) index = .ok whole
  inside : x < info.remaining index
  byte : byteIn info base fs (index * info.pieceLength.toNat + x) = some b

/-- One write: the places that are written in time hold the data, and the other places what they held. -/
theorem holds_writePieceRange (hnodup : info.outputPaths.Nodup) {i offset : ℕ} {data : Bytes} {env : WriteEnv}
    (index x : ℕ) (b : UInt8) :
    ((if i = index ∧ reaches ⟨some base, some info⟩ i offset data.length env x = true then data[x - offset]?
          else none) = some b →
        Holds info base (writePieceRange ⟨some base, some info⟩ fs i offset data env).files index x b) ∧
      ((if i = index ∧ reaches ⟨some base, some info⟩ i offset data.length env x = true then data[x - offset]?
          else none) = none → Holds info base fs index x b →
        Holds info base (writePieceRange ⟨some base, some info⟩ fs i offset data env).files index x b) := by
  constructor
  · intro hbyte
    split at hbyte
    · rename_i hplace
      obtain ⟨rfl, hreach⟩ := hplace
      obtain ⟨hlaid, hinside, hat⟩ := byteIn_writePieceRange hnodup hreach
      exact ⟨hlaid, hinside, hat.trans hbyte⟩
    · cases hbyte
  · intro hnone hold
    refine ⟨hold.laid, hold.inside, byteIn_writePieceRange_of_not_reaches hnodup hold.inside hold.byte ?_⟩
    rintro rfl
    rw [Bool.eq_false_iff]
    intro hreach
    rw [if_pos ⟨rfl, hreach⟩, List.getElem?_eq_none_iff] at hnone
    obtain ⟨-, -, hle, hlt, -⟩ := of_reaches hreach
    omega

/-- One call. -/
theorem holds_perform (hnodup : info.outputPaths.Nodup) (call : WriteCall) (env : WriteEnv) (index x : ℕ) (b : UInt8) :
    (call.puts ⟨some base, some info⟩ env index x = some b →
        Holds info base (call.perform ⟨some base, some info⟩ fs env).files index x b) ∧
      (call.puts ⟨some base, some info⟩ env index x = none → Holds info base fs index x b →
        Holds info base (call.perform ⟨some base, some info⟩ fs env).files index x b) := by
  cases call with
  | writeBlock i offset block => exact holds_writePieceRange hnodup index x b
  | recv i data =>
      have hwrite : _ ∧ _ := @holds_writePieceRange H info base fs hnodup i 0 data env index x b
      rw [Nat.sub_zero] at hwrite
      exact hwrite

/-- **A place holds what was written there last in time**, and what it held when nothing was. -/
theorem holds_performAll (hnodup : info.outputPaths.Nodup) {calls : List (WriteCall × WriteEnv)}
    (h : WriteCall.performAll ⟨some base, some info⟩ fs calls = some fs') (index x : ℕ) (b : UInt8) :
    (lastPut ⟨some base, some info⟩ index x calls = some b → Holds info base fs' index x b) ∧
      (lastPut ⟨some base, some info⟩ index x calls = none → Holds info base fs index x b →
        Holds info base fs' index x b) := by
  induction calls generalizing fs with
  | nil =>
      cases h
      exact ⟨nofun, fun _ hold => hold⟩
  | cons call calls ih =>
      obtain ⟨call, env⟩ := call
      rw [WriteCall.performAll] at h
      split at h
      · obtain ⟨hput, hkept⟩ := holds_perform hnodup call env index x b
        obtain ⟨hlater, hnothing⟩ := ih h
        rw [lastPut]
        cases hlast : lastPut ⟨some base, some info⟩ index x calls with
        | some b' =>
            refine ⟨fun hb => ?_, nofun⟩
            cases hb
            exact hlater hlast
        | none =>
            rw [Option.none_or]
            exact ⟨fun hb => hnothing hlast (hput hb), fun hnone hold => hnothing hlast (hkept hnone hold)⟩
      · cases h

/-- A call that succeeds over a faithful store writes every byte in time. -/
theorem puts_of_ok {call : WriteCall} {env : WriteEnv} (hreports : env.Reports)
    (hok : (call.perform ⟨some base, some info⟩ fs env).ok = true) (index x : ℕ) :
    call.puts ⟨some base, some info⟩ env index x = call.byteFor index x := by
  have hlate := late_writePieceRange_of_reports hreports ⟨some base, some info⟩ fs
  have hrange : ∀ (i offset : ℕ) (data : Bytes),
      (writePieceRange ⟨some base, some info⟩ fs i offset data env).ok = true →
      (if i = index ∧ reaches ⟨some base, some info⟩ i offset data.length env x = true then data[x - offset]?
        else none) = if i = index ∧ offset ≤ x then data[x - offset]? else none := by
    intro i offset data hok
    by_cases hplace : i = index ∧ offset ≤ x
    · rw [if_pos hplace]
      rcases Nat.lt_or_ge x (offset + data.length) with hlt | hge
      · exact if_pos ⟨hplace.1, reaches_of_ok hok (hlate i offset data) hplace.2 hlt⟩
      · rw [List.getElem?_eq_none (by omega), ite_self]
    · rw [if_neg hplace, if_neg]
      rintro ⟨hi, hreach⟩
      obtain ⟨-, -, hle, -⟩ := of_reaches hreach
      exact hplace ⟨hi, hle⟩
  cases call with
  | writeBlock i offset block => exact hrange i offset block hok
  | recv i data =>
      have hwhole := hrange i 0 data hok
      simp only [Nat.zero_le, and_true, Nat.sub_zero] at hwhole
      exact hwhole

/-- Over a faithful store what was written last was written in time. -/
theorem lastPut_eq {calls : List (WriteCall × WriteEnv)} (hreports : ∀ call ∈ calls, call.2.Reports)
    (h : WriteCall.performAll ⟨some base, some info⟩ fs calls = some fs') (index x : ℕ) :
    lastPut ⟨some base, some info⟩ index x calls = lastWritten index x calls := by
  induction calls generalizing fs with
  | nil => rfl
  | cons call calls ih =>
      obtain ⟨call, env⟩ := call
      rw [WriteCall.performAll] at h
      split at h
      · rename_i hok
        rw [lastPut, lastWritten, puts_of_ok (hreports _ (List.mem_cons_self ..)) hok,
          ih (fun c hc => hreports c (List.mem_cons_of_mem _ hc)) h]
      · cases h

end Last

end FilePieceManager

/-- A read inside of what has been written finds what was written last. -/
theorem FilePieceManager.readPieceBlock_of_lastWritten {info : Info H} (hpaths : info.outputPaths.Nodup) {base : Path}
    {fs fs' : FileStore Path} {calls : List (WriteCall × WriteEnv)} (hreports : ∀ call ∈ calls, call.2.Reports)
    (hcalls : WriteCall.performAll ⟨some base, some info⟩ fs calls = some fs') {index offset length : ℕ}
    (hall : ∀ x, offset ≤ x → x < offset + length → (lastWritten index x calls).isSome = true) :
    ∃ bytes, FilePieceManager.readPieceBlock ⟨some base, some info⟩ fs' index offset length = some bytes ∧
      bytes.map some = (List.range' offset length).map fun x => lastWritten index x calls := by
  rcases Nat.eq_zero_or_pos length with rfl | hpos
  · exact ⟨[], rfl, rfl⟩
  · have hholds : ∀ x, offset ≤ x → x < offset + length → ∃ b, lastWritten index x calls = some b ∧
        FilePieceManager.Holds info base fs' index x b := by
      intro x hle hlt
      obtain ⟨b, hb⟩ := Option.isSome_iff_exists.1 (hall x hle hlt)
      refine ⟨b, hb, (FilePieceManager.holds_performAll hpaths hcalls index x b).1 ?_⟩
      rw [FilePieceManager.lastPut_eq hreports hcalls, hb]
    obtain ⟨_, -, hfirst⟩ := hholds offset le_rfl (by omega)
    obtain ⟨_, -, hlast⟩ := hholds (offset + length - 1) (by omega) (by omega)
    have hinside := hlast.inside
    have hsome : ((List.range' offset length).map fun x => (lastWritten index x calls).getD 0).map some =
        (List.range' offset length).map fun x => lastWritten index x calls := by
      rw [List.map_map]
      refine List.map_congr_left fun x hx => ?_
      rw [List.mem_range'_1] at hx
      obtain ⟨b, hb, -⟩ := hholds x hx.1 hx.2
      rw [Function.comp_apply, hb]
      rfl
    refine ⟨_, (FilePieceManager.readPieceRange_eq_some_iff hpos).2 ⟨hfirst.laid, by omega, ?_⟩, hsome⟩
    rw [hsome, ← List.map_add_range', List.map_map]
    refine List.map_congr_left fun x hx => ?_
    rw [List.mem_range'_1] at hx
    obtain ⟨b, hb, hold⟩ := hholds x hx.1 hx.2
    rw [Function.comp_apply, hold.byte, hb]

/-- Reading a piece is reading its one range. -/
theorem FilePieceManager.readPiece_eq_readPieceBlock {info : Info H} (hinfo : info.Consistent) (base : Path)
    (fs : FileStore Path) {index : ℕ} (hindex : index < info.pieceCount) :
    FilePieceManager.readPiece ⟨some base, some info⟩ fs index =
      FilePieceManager.readPieceBlock ⟨some base, some info⟩ fs index 0 (info.pieceLen index) := by
  have hlen := hinfo.pieceLen_eq hindex
  have hpos : 0 < info.pieceLen index := by
    have hstart := hinfo.lt_iff.1 hindex
    have hpl := hinfo.pos
    rw [hlen, Info.remaining, Nat.succ_mul]
    omega
  -- a piece without paths has nothing to read either way
  have hnone : (∀ whole, pieceToPaths (some info) index ≠ .ok whole) →
      none = FilePieceManager.readPieceBlock ⟨some base, some info⟩ fs index 0 (info.pieceLen index) := by
    intro hpaths
    symm
    rw [Option.eq_none_iff_forall_ne_some]
    intro found hread
    obtain ⟨⟨whole, hok⟩, -⟩ := (FilePieceManager.readPieceRange_eq_some_iff hpos).1 hread
    exact hpaths whole hok
  unfold FilePieceManager.readPiece
  dsimp only
  cases hwhole : pieceToPaths (some info) index with
  | ok whole =>
      unfold FilePieceManager.readPieceBlock
      dsimp only
      rw [(sum_pieceToPaths hwhole).2, hlen, Info.remaining]
  | err e =>
      refine hnone fun whole h => ?_
      cases hwhole.symm.trans h
  | panic =>
      refine hnone fun whole h => ?_
      cases hwhole.symm.trans h

/-- **Reads return what was written last**: over a faithful store a read of a range all of whose bytes have been
written answers for each byte what was written there last; a write to a piece, also one that fails, changes nothing
that is read of another piece; and reading a piece is reading all of its range. -/
theorem reads_return_last_writes (info : Info H) (hinfo : info.Consistent) (hpaths : info.outputPaths.Nodup)
    (base : Path) :
    (∀ (fs fs' : FileStore Path) (calls : List (WriteCall × WriteEnv)), (∀ call ∈ calls, call.2.Reports) →
      WriteCall.performAll ⟨some base, some info⟩ fs calls = some fs' →
      ∀ index offset length, (∀ x, offset ≤ x → x < offset + length → (lastWritten index x calls).isSome = true) →
        ∃ bytes, FilePieceManager.readPieceBlock ⟨some base, some info⟩ fs' index offset length = some bytes ∧
          bytes.map some = (List.range' offset length).map fun x => lastWritten index x calls) ∧
    (∀ (fs : FileStore Path) (i index offset length : ℕ) (found : Bytes), i ≠ index →
      FilePieceManager.readPieceBlock ⟨some base, some info⟩ fs index offset length = some found →
      (∀ (offset' : ℕ) (block : Bytes) (env : WriteEnv), FilePieceManager.readPieceBlock ⟨some base, some info⟩
        (FilePieceManager.writeBlock ⟨some base, some info⟩ fs i offset' block env).files index offset length =
          some found) ∧
      ∀ (data : Bytes) (env : WriteEnv), FilePieceManager.readPieceBlock ⟨some base, some info⟩
        (FilePieceManager.recv ⟨some base, some info⟩ fs i data env).files index offset length = some found) ∧
    ∀ (fs : FileStore Path) (index : ℕ), index < info.pieceCount →
      FilePieceManager.readPiece ⟨some base, some info⟩ fs index =
        FilePieceManager.readPieceBlock ⟨some base, some info⟩ fs index 0 (info.pieceLen index) := by
  refine ⟨?_, ?_, ?_⟩
  · intro fs fs' calls hreports hcalls index offset length hall
    exact FilePieceManager.readPieceBlock_of_lastWritten hpaths hreports hcalls hall
  · intro fs i index offset length found hi hread
    exact ⟨fun offset' block env => FilePieceManager.readPieceBlock_of_other hpaths hi hread offset' block env,
      fun data env => FilePieceManager.readPieceBlock_of_other hpaths hi hread 0 data env⟩
  · intro fs index hindex
    exact FilePieceManager.readPiece_eq_readPieceBlock hinfo base fs hindex

namespace Sample

/-- Two files of one byte each, in one piece. -/
def spanning : Info Bytes := { apart with pieceLength := 2, pieces := [[]] }

/-- A piece is written, and then its second byte again. -/
def overlapping : List (WriteCall × WriteEnv) := [(.recv 0 [1, 2], .flushed), (.writeBlock 0 1 [9], .flushed)]

end Sample

/-- A read across the boundary of two files finds the byte that was written again. -/
theorem reads_return_last_writes_sample :
    ∃ fs, WriteCall.performAll ⟨some [['d']], some Sample.spanning⟩ (fun _ => none) Sample.overlapping = some fs ∧
      FilePieceManager.readPieceBlock ⟨some [['d']], some Sample.spanning⟩ fs 0 0 2 = some [1, 9] := by
  obtain ⟨fs, hfs⟩ := Option.isSome_iff_exists.1 (by decide +kernel :
    (WriteCall.performAll ⟨some [['d']], some Sample.spanning⟩ (fun _ => none) Sample.overlapping).isSome = true)
  have hreports : ∀ call ∈ Sample.overlapping, call.2.Reports := by
    intro call hcall
    rcases List.mem_cons.1 hcall with rfl | hcall
    · exact WriteEnv.reports_flushed
    · rw [List.mem_singleton.1 hcall]
      exact WriteEnv.reports_flushed
  obtain ⟨bytes, hread, hbytes⟩ := (reads_return_last_writes Sample.spanning ⟨by decide, by decide⟩ (by decide)
    [['d']]).1 _ fs _ hreports hfs 0 0 2 (by
      intro x _ hx
      have hcases : x = 0 ∨ x = 1 := by omega
      rcases hcases with rfl | rfl
      · rfl
      · rfl)
  have hlast : bytes.map some = [1, 9].map some := hbytes.trans (by decide)
  refine ⟨fs, hfs, ?_⟩
  rw [hread, List.map_injective_iff.2 (Option.some_injective _) hlast]

end Tortillas
