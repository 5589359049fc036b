/-
**A finished download.**

When every piece has been received once, in whatever order, the output files should be the files of the torrent:
these and no others, with their lengths and their contents.  For files with a byte this is so: each of their bytes
lies in a piece, writing that piece creates the file, and nothing is written beyond its end.  A file of no bytes
lies in no piece.  The walk over the files may come by it, but a segment of length zero is left out when the range of
a piece is cut into segments, so the file is never opened and never created.

A call may also succeed although it has not written all of its data.  A byte that is not written is missing, unless it
is a zero before one that is written to the same file, which comes about as a gap.  A write that is made late, but
before the last call has answered, counts as one that was made in time: the pieces do not overlap.

Main definitions:

* `Downloaded` — the output files are those of the torrent;
* `NothingMissing` — every byte is written in time, or comes about by itself.

Main results:

* `mem_bytesBelow` — which positions the bytes of a torrent have;
* `FilesFit` and `FilesFit.performAll` — no file is created that the torrent does not have, and none gets too long;
* `finished_download_iff` — **when the output files are those of the torrent**;
* `empty_file_not_created` — a torrent with an empty file.
-/

import Tortillas.InFileStorage

set_option relaxedAutoImplicit false
set_option autoImplicit false

namespace Tortillas

variable {H : Type}

/-! ### Which files there are -/

/-- Which positions the bytes of a torrent have. -/
theorem mem_bytesBelow {info : Info H} {base path : Path} {o : ℕ} :
    (path, o) ∈ info.bytesBelow base ↔
      ∃ (k : ℕ) (file : Path) (n : ℕ), info.outputPaths[k]? = some file ∧ info.fileLengths[k]? = some n ∧ o < n ∧
        path = base ++ file := by
  rw [Info.bytesBelow, List.mem_map]
  constructor
  · rintro ⟨⟨k, o'⟩, hmem, heq⟩
    obtain ⟨-, n, hn, ho⟩ := mem_layout.1 hmem
    obtain ⟨rfl, rfl⟩ := Prod.mk.inj heq
    have hlt : k < info.outputPaths.length := by
      rw [length_outputPaths]
      exact (List.getElem?_eq_some_iff.1 hn).1
    refine ⟨k, info.outputPaths[k], n, List.getElem?_eq_getElem hlt, hn, ho, ?_⟩
    rw [List.getD_eq_getElem _ _ hlt]
  · rintro ⟨k, file, n, hfile, hn, ho, rfl⟩
    refine ⟨(k, o), mem_layout.2 ⟨Nat.zero_le _, n, hn, ho⟩, ?_⟩
    rw [List.getD_eq_getElem?_getD, hfile]
    rfl

/-- Distinct output paths have one number each. -/
theorem length_of_path {info : Info H} (hnodup : info.outputPaths.Nodup) {k k' n n' : ℕ} {file : Path}
    (hk : info.outputPaths[k]? = some file) (hk' : info.outputPaths[k']? = some file)
    (hn : info.fileLengths[k]? = some n) (hn' : info.fileLengths[k']? = some n') : n = n' := by
  have hsame : k = k' := (List.getElem?_inj (List.getElem?_eq_some_iff.1 hk).1 hnodup).1 (hk.trans hk'.symm)
  subst hsame
  exact Option.some_inj.1 (hn.symm.trans hn')

/-- Every file below the output folder is one of the torrent that has a byte, and is not too long. -/
def FilesFit (info : Info H) (base : Path) (fs : FileStore Path) : Prop :=
  ∀ path data, fs (base ++ path) = some data → ∃ (k : ℕ) (n : ℕ), info.outputPaths[k]? = some path ∧
    info.fileLengths[k]? = some n ∧ 0 < n ∧ data.length ≤ n

namespace FilesFit

variable {info : Info H} {base : Path} {fs : FileStore Path}

/-- Writing inside a file of the torrent. -/
theorem write (h : FilesFit info base fs) (hnodup : info.outputPaths.Nodup) {seg : Segment Path} {block : Bytes}
    (hlen : block.length ≤ seg.length) (hpos : 0 < seg.length) (hseg : ∀ pos ∈ seg.positions, pos ∈ info.bytesBelow base) :
    FilesFit info base (fs.write seg.path seg.offset block) := by
  intro path data hdata
  by_cases hpath : base ++ path = seg.path
  · -- the last byte of the segment is one of the file
    have hlast : (seg.path, seg.offset + (seg.length - 1)) ∈ seg.positions :=
      List.mem_map.2 ⟨_, List.mem_range'_1.2 (by omega), rfl⟩
    obtain ⟨k, file, n, hfile, hn, ho, hsame⟩ := mem_bytesBelow.1 (hseg _ hlast)
    have hfile' : file = path := List.append_cancel_left (hsame.symm.trans hpath.symm)
    subst hfile'
    rw [hpath, FileStore.write_apply_self] at hdata
    obtain rfl := Option.some_inj.1 hdata
    refine ⟨k, n, hfile, hn, by omega, ?_⟩
    have hold : ((fs seg.path).getD []).length ≤ n := by
      cases hfs : fs seg.path with
      | none => exact Nat.zero_le _
      | some old =>
          obtain ⟨k', n', hfile', hn', -, hle⟩ := h file old (hpath ▸ hfs)
          exact (length_of_path hnodup hfile hfile' hn hn').symm ▸ hle
    by_cases hblock : block = []
    · rw [writeAt, if_pos hblock]
      exact hold
    · rw [length_writeAt hblock]
      omega
  · rw [FileStore.write_apply_of_ne hpath] at hdata
    exact h path data hdata

/-- A call keeps it, whether it succeeds or not. -/
theorem perform (h : FilesFit info base fs) (hnodup : info.outputPaths.Nodup) (call : WriteCall) (env : WriteEnv) :
    FilesFit info base (call.perform ⟨some base, some info⟩ fs env).files := by
  have hwrite : ∀ (index offset : ℕ) (data : Bytes), FilesFit info base
      (FilePieceManager.writePieceRange ⟨some base, some info⟩ fs index offset data env).files := by
    intro index offset data
    unfold FilePieceManager.writePieceRange
    dsimp only
    cases hsegs : pieceRangeSegments (some info) index offset data.length with
    | err e => exact h
    | panic => exact h
    | ok segs =>
        rcases Nat.eq_zero_or_pos data.length with hzero | hpos
        · rw [pieceRangeSegments, if_pos hzero] at hsegs
          cases hsegs
          exact h
        · obtain ⟨hbytes, -, hall, -⟩ := FilePieceManager.pieceRangeSegments_spec hpos hsegs base
          refine FileStore.writeSegments_induct (I := FilesFit info base) _ ?_ false fs data env h
          intro fs' seg block hseg hlen hfit
          refine hfit.write hnodup hlen (hall seg hseg) fun pos hmem => ?_
          have hmem' : pos ∈ (segs.map (FilePieceManager.under base)).flatMap Segment.positions :=
            List.mem_flatMap.2 ⟨seg, hseg, hmem⟩
          rw [hbytes] at hmem'
          exact List.mem_of_mem_drop (List.mem_of_mem_take hmem')
  cases call with
  | writeBlock index offset block => exact hwrite index offset block
  | recv index data => exact hwrite index 0 data

/-- **No file is created that the torrent does not have, and none gets too long.** -/
theorem performAll (hnodup : info.outputPaths.Nodup) {fs' : FileStore Path} {calls : List (WriteCall × WriteEnv)}
    (h : FilesFit info base fs) (hcalls : WriteCall.performAll ⟨some base, some info⟩ fs calls = some fs') :
    FilesFit info base fs' := by
  induction calls generalizing fs with
  | nil =>
      cases hcalls
      exact h
  | cons call calls ih =>
      obtain ⟨call, env⟩ := call
      rw [WriteCall.performAll] at hcalls
      split at hcalls
      · exact ih (h.perform hnodup call env) hcalls
      · cases hcalls

end FilesFit

/-! ### What is in them -/

/-- The bytes of files with the right lengths, one file after the other. -/
theorem map_byteAt_layout (fs : FileStore Path) (names : ℕ → Path) (j : ℕ) (files : List Path) (ns : List ℕ)
    (hsame : files.length = ns.length) (hnames : ∀ k file, files[k]? = some file → names (j + k) = file)
    (h : ∀ (k : ℕ) (file : Path) (n : ℕ), files[k]? = some file → ns[k]? = some n →
      ∃ data, fs file = some data ∧ data.length = n) :
    ((layout j ns).map fun pos => (names pos.1, pos.2)).map fs.byteAt =
      (files.flatMap fun file => (fs file).getD []).map some := by
  induction ns generalizing j files with
  | nil =>
      rw [List.eq_nil_of_length_eq_zero hsame]
      rfl
  | cons n ns ih =>
      cases files with
      | nil => cases hsame
      | cons file files =>
          obtain ⟨data, hdata, hlen⟩ := h 0 file n rfl rfl
          have hname : names j = file := hnames 0 file rfl
          rw [layout, List.map_append, List.map_append, List.flatMap_cons, List.map_append,
            ih (j + 1) files (Nat.succ.inj hsame) ?_ fun k file' n' hk hn => h (k + 1) file' n' hk hn]
          · refine congrArg (· ++ _) ?_
            rw [List.map_map, List.map_map, hdata, Option.getD_some]
            refine List.ext_getElem? fun k => ?_
            rw [List.getElem?_map, List.getElem?_map]
            rcases Nat.lt_or_ge k n with hk | hk
            · rw [List.getElem?_range hk, Option.map_some, Function.comp_apply, Function.comp_apply]
              rw [FileStore.byteAt, hname, hdata, Option.bind_some, List.getElem?_eq_getElem (by omega)]
              rfl
            · rw [List.getElem?_eq_none (by simpa using hk), List.getElem?_eq_none (by omega)]
              rfl
          · intro k file' hk
            rw [Nat.add_assoc, Nat.add_comm 1 k]
            exact hnames (k + 1) file' hk

/-- **The output files are those of the torrent**: these and no others, each with its length, and together with the
data of all pieces. -/
structure Downloaded (info : Info H) (base : Path) (pieces : ℕ → Bytes) (fs : FileStore Path) : Prop where
  files : ∀ path, (fs (base ++ path)).isSome = true ↔ path ∈ info.outputPaths
  lengths : ∀ (k : ℕ) (path : Path) (n : ℕ), info.outputPaths[k]? = some path → info.fileLengths[k]? = some n →
    ∃ data, fs (base ++ path) = some data ∧ data.length = n
  contents : (info.outputPaths.flatMap fun path => (fs (base ++ path)).getD []) =
    (List.range info.pieceCount).flatMap pieces

/-- The bytes of files with the right lengths are the bytes of the torrent. -/
theorem map_byteAt_bytesBelow {info : Info H} {base : Path} {fs : FileStore Path}
    (h : ∀ (k : ℕ) (path : Path) (n : ℕ), info.outputPaths[k]? = some path → info.fileLengths[k]? = some n →
      ∃ data, fs (base ++ path) = some data ∧ data.length = n) :
    (info.bytesBelow base).map fs.byteAt =
      (info.outputPaths.flatMap fun path => (fs (base ++ path)).getD []).map some := by
  have hfiles := map_byteAt_layout fs (fun k => base ++ info.outputPaths.getD k []) 0
    (info.outputPaths.map (base ++ ·)) info.fileLengths (by rw [List.length_map, length_outputPaths]) ?_ ?_
  · rw [List.flatMap_map] at hfiles
    exact hfiles
  · intro k file hk
    obtain ⟨path, hpath, rfl⟩ := Option.map_eq_some_iff.1 (List.getElem?_map ▸ hk)
    rw [Nat.zero_add, List.getD_eq_getElem?_getD, hpath]
    rfl
  · intro k file n hk hn
    obtain ⟨path, hpath, rfl⟩ := Option.map_eq_some_iff.1 (List.getElem?_map ▸ hk)
    exact h k path n hpath hn

/-- **The bytes of the torrent are those of the pieces**, one by one. -/
theorem map_byteAt_bytesBelow_iff {info : Info H} (hinfo : info.Consistent) (hsum : info.fileLengths.sum ≤ usizeMax)
    {pieces : ℕ → Bytes} (hlen : ∀ index < info.pieceCount, (pieces index).length = info.pieceLen index) {base : Path}
    {fs : FileStore Path} :
    (info.bytesBelow base).map fs.byteAt = ((List.range info.pieceCount).flatMap pieces).map some ↔
      ∀ index < info.pieceCount, ∀ x < info.pieceLen index,
        FilePieceManager.byteIn info base fs (index * info.pieceLength.toNat + x) = (pieces index)[x]? := by
  have htotal : info.totalLength = info.fileLengths.sum := by rw [info.totalLength_eq, Nat.min_eq_left hsum]
  have hwhole := flatMap_pieces (info.bytesBelow base) info.pieceLength.toNat info.pieceCount
  rw [List.take_of_length_le (l := info.bytesBelow base) (by
    rw [length_bytesBelow, ← htotal, hinfo.count]
    exact le_divCeil_mul hinfo.pos)] at hwhole
  -- the bytes of a piece, as the files have them
  have hpiece : ∀ index < info.pieceCount,
      (((info.bytesBelow base).drop (index * info.pieceLength.toNat)).take info.pieceLength.toNat).map fs.byteAt =
        (List.range' (index * info.pieceLength.toNat) (info.pieceLen index)).map
          (FilePieceManager.byteIn info base fs) := by
    intro index hindex
    have hlt := hinfo.lt_iff.1 hindex
    have hlength := hinfo.pieceLen_eq hindex
    rw [Info.remaining, Nat.succ_mul] at hlength
    have htake : ((info.bytesBelow base).drop (index * info.pieceLength.toNat)).take info.pieceLength.toNat =
        ((info.bytesBelow base).drop (index * info.pieceLength.toNat)).take (info.pieceLen index) := by
      refine List.take_eq_take_iff.2 ?_
      rw [List.length_drop, length_bytesBelow, ← htotal]
      omega
    rw [htake]
    refine FilePieceManager.map_byteIn ?_
    rw [length_bytesBelow, ← htotal]
    omega
  have hrange : ∀ index, (List.range' (index * info.pieceLength.toNat) (info.pieceLen index)).map
      (FilePieceManager.byteIn info base fs) = (pieces index).map some ↔ (pieces index).length = info.pieceLen index ∧
        ∀ x < info.pieceLen index,
          FilePieceManager.byteIn info base fs (index * info.pieceLength.toNat + x) = (pieces index)[x]? := by
    intro index
    constructor
    · intro heq
      have hlength := congrArg List.length heq
      rw [List.length_map, List.length_map, List.length_range'] at hlength
      refine ⟨hlength.symm, fun x hx => ?_⟩
      have hat := congrArg (·[x]?) heq
      simp only [List.getElem?_map, List.getElem?_range' hx, Option.map_some, Nat.one_mul] at hat
      rw [List.getElem?_eq_getElem (by omega)] at hat ⊢
      exact Option.some.inj hat
    · rintro ⟨hlength, hbytes⟩
      refine List.ext_getElem? fun x => ?_
      rw [List.getElem?_map, List.getElem?_map]
      rcases Nat.lt_or_ge x (info.pieceLen index) with hx | hx
      · rw [List.getElem?_range' hx, Nat.one_mul, Option.map_some, hbytes x hx, List.getElem?_eq_getElem (by omega)]
        rfl
      · rw [List.getElem?_eq_none (by simpa using hx), List.getElem?_eq_none (by omega)]
        rfl
  rw [← hwhole, List.map_flatMap, List.map_flatMap]
  constructor
  · intro hall index hindex
    rw [List.flatMap_def, List.flatMap_def] at hall
    have hlists := List.eq_iff_flatten_eq.2 ⟨hall, ?_⟩
    · have hat := congrArg (·[index]?) hlists
      simp only [List.getElem?_map, List.getElem?_range hindex, Option.map_some, Option.some.injEq] at hat
      exact ((hrange index).1 ((hpiece index hindex).symm.trans hat)).2
    · rw [List.map_map, List.map_map]
      refine List.map_congr_left fun i hi => ?_
      rw [Function.comp_apply, Function.comp_apply, hpiece i (List.mem_range.1 hi), List.length_map, List.length_map,
        List.length_range', hlen i (List.mem_range.1 hi)]
  · intro hall
    refine List.flatMap_congr fun index hindex => ?_
    rw [hpiece index (List.mem_range.1 hindex)]
    exact (hrange index).2 ⟨hlen index (List.mem_range.1 hindex), hall index (List.mem_range.1 hindex)⟩

/-! ### Every piece once -/

/-- The byte of a piece is written before the call that brings the piece has answered. -/
def Arrives (info : Info H) (base : Path) (pieces : ℕ → Bytes) (envs : ℕ → WriteEnv) (index x : ℕ) : Prop :=
  FilePieceManager.reaches ⟨some base, some info⟩ index 0 (pieces index).length (envs index) x = true

/-- **Nothing is missing**: every byte is written in time, or is a zero before one of its file that is. -/
def NothingMissing (info : Info H) (base : Path) (pieces : ℕ → Bytes) (envs : ℕ → WriteEnv) : Prop :=
  ∀ index < info.pieceCount, ∀ x < info.pieceLen index, Arrives info base pieces envs index x ∨
    (pieces index)[x]? = some 0 ∧ ∃ (j y : ℕ) (path : Path) (o o' : ℕ), j < info.pieceCount ∧
      Arrives info base pieces envs j y ∧
      (info.bytesBelow base)[index * info.pieceLength.toNat + x]? = some (path, o) ∧
      (info.bytesBelow base)[j * info.pieceLength.toNat + y]? = some (path, o') ∧ o < o'

section Finished

variable {info : Info H} {base : Path} {fs fs' : FileStore Path} {pieces : ℕ → Bytes} {envs : ℕ → WriteEnv}
  {order : List ℕ}

/-- What was written last in time, when every piece was received once. -/
theorem lastPut_recv (m : FilePieceManager H) (pieces : ℕ → Bytes) (envs : ℕ → WriteEnv) {order : List ℕ}
    (hnodup : order.Nodup) (index x : ℕ) :
    lastPut m index x (order.map fun i => (.recv i (pieces i), envs i)) =
      if index ∈ order ∧ m.reaches index 0 (pieces index).length (envs index) x = true then (pieces index)[x]?
      else none := by
  induction order with
  | nil => rfl
  | cons i order ih =>
      obtain ⟨hnot, hrest⟩ := List.nodup_cons.1 hnodup
      rw [List.map_cons, lastPut, ih hrest, WriteCall.puts]
      by_cases hi : i = index
      · subst hi
        rw [if_neg fun h => hnot h.1, Option.none_or]
        exact if_congr (and_congr_left' (iff_of_true rfl (List.mem_cons_self ..))) rfl rfl
      · rw [if_neg (c := i = index ∧ _) fun h => hi h.1, Option.or_none]
        exact if_congr (and_congr_left' (by rw [List.mem_cons, or_iff_right (Ne.symm hi)])) rfl rfl

/-- A byte that is there was there before, or has arrived, or is a zero before one of its file that has. -/
theorem byteAt_of_received
    (h : WriteCall.performAll ⟨some base, some info⟩ fs (order.map fun i => (.recv i (pieces i), envs i)) =
      some fs') {pos : Path × ℕ} {b : UInt8} (hb : fs'.byteAt pos = some b) :
    fs.byteAt pos = some b ∨
      (∃ i ∈ order, ∃ x, Arrives info base pieces envs i x ∧
        (info.bytesBelow base)[i * info.pieceLength.toNat + x]? = some pos) ∨
      (b = 0 ∧ ∃ i ∈ order, ∃ x o, Arrives info base pieces envs i x ∧
        (info.bytesBelow base)[i * info.pieceLength.toNat + x]? = some (pos.1, o) ∧ pos.2 < o) := by
  induction order generalizing fs with
  | nil =>
      cases h
      exact .inl hb
  | cons i order ih =>
      rw [List.map_cons, WriteCall.performAll] at h
      split at h
      · rcases ih h with hold | ⟨j, hj, x, hat⟩ | ⟨hzero, j, hj, x, hat⟩
        · rcases FilePieceManager.byteAt_writePieceRange_cases hold with hold | ⟨x, hat⟩ | ⟨hzero, x, o, hat⟩
          · exact .inl hold
          · exact .inr (.inl ⟨i, List.mem_cons_self .., x, hat⟩)
          · exact .inr (.inr ⟨hzero, i, List.mem_cons_self .., x, o, hat⟩)
        · exact .inr (.inl ⟨j, List.mem_cons_of_mem _ hj, x, hat⟩)
        · exact .inr (.inr ⟨hzero, j, List.mem_cons_of_mem _ hj, x, hat⟩)
      · cases h

/-- A byte that has arrived is in the files. -/
theorem byteIn_of_arrives (hpaths : info.outputPaths.Nodup) (horder : order.Perm (List.range info.pieceCount))
    (h : WriteCall.performAll ⟨some base, some info⟩ fs (order.map fun i => (.recv i (pieces i), envs i)) =
      some fs') {index x : ℕ} (hindex : index < info.pieceCount) (harrives : Arrives info base pieces envs index x) :
    FilePieceManager.byteIn info base fs' (index * info.pieceLength.toNat + x) = (pieces index)[x]? ∧
      x < info.remaining index ∧ x < (pieces index).length := by
  have hmem : index ∈ order := horder.mem_iff.2 (List.mem_range.2 hindex)
  obtain ⟨-, -, -, hlt, -⟩ := FilePieceManager.of_reaches harrives
  rw [Nat.zero_add] at hlt
  have hlast := lastPut_recv ⟨some base, some info⟩ pieces envs (horder.nodup_iff.2 List.nodup_range) index x
  rw [if_pos ⟨hmem, harrives⟩, List.getElem?_eq_getElem hlt] at hlast
  have hold := (FilePieceManager.holds_performAll hpaths h index x _).1 hlast
  refine ⟨?_, hold.inside, hlt⟩
  rw [hold.byte, List.getElem?_eq_getElem hlt]

/-- **The bytes are those of the pieces exactly if nothing is missing**, in an output folder that was empty. -/
theorem byteIn_of_received_iff (hinfo : info.Consistent) (hpaths : info.outputPaths.Nodup)
    (hempty : ∀ path, fs (base ++ path) = none)
    (hlen : ∀ index < info.pieceCount, (pieces index).length = info.pieceLen index)
    (horder : order.Perm (List.range info.pieceCount))
    (h : WriteCall.performAll ⟨some base, some info⟩ fs (order.map fun i => (.recv i (pieces i), envs i)) =
      some fs') :
    (∀ index < info.pieceCount, ∀ x < info.pieceLen index,
        FilePieceManager.byteIn info base fs' (index * info.pieceLength.toNat + x) = (pieces index)[x]?) ↔
      NothingMissing info base pieces envs := by
  -- a byte of the torrent that is there has arrived, or is a zero before one that has
  have hcases : ∀ {index x : ℕ} {b : UInt8} {pos : Path × ℕ}, index < info.pieceCount → x < info.pieceLen index →
      (info.bytesBelow base)[index * info.pieceLength.toNat + x]? = some pos → fs'.byteAt pos = some b →
      Arrives info base pieces envs index x ∨ (b = 0 ∧ ∃ j y o, j < info.pieceCount ∧
        Arrives info base pieces envs j y ∧
        (info.bytesBelow base)[j * info.pieceLength.toNat + y]? = some (pos.1, o) ∧ pos.2 < o) := by
    intro index x b pos hindex hx hat hb
    rcases byteAt_of_received h hb with hold | ⟨j, hj, y, harrives, hat'⟩ | ⟨hzero, j, hj, y, o, harrives, hat'⟩
    · obtain ⟨k, file, n, -, -, -, hpath⟩ := mem_bytesBelow.1 (List.mem_of_getElem? hat)
      rw [FileStore.byteAt, hpath, hempty] at hold
      cases hold
    · have hj' : j < info.pieceCount := List.mem_range.1 (horder.mem_iff.1 hj)
      have hy := (byteIn_of_arrives hpaths horder h hj' harrives).2.1
      have hsame := (List.getElem?_inj (List.getElem?_eq_some_iff.1 hat).1 (nodup_bytesBelow hpaths base)).1
        (hat.trans hat'.symm)
      obtain ⟨rfl, rfl⟩ := info.same_place (by rw [← hinfo.pieceLen_eq hindex]; exact hx) hy hsame
      exact .inl harrives
    · exact .inr ⟨hzero, j, y, o, List.mem_range.1 (horder.mem_iff.1 hj), harrives, hat'⟩
  constructor
  · intro hall index hindex x hx
    have hbyte := hall index hindex x hx
    rw [List.getElem?_eq_getElem (by rw [hlen index hindex]; exact hx)] at hbyte
    obtain ⟨⟨path, o⟩, hat, hb⟩ := Option.bind_eq_some_iff.1 hbyte
    rcases hcases hindex hx hat hb with harrives | ⟨hzero, j, y, o', hj, harrives, hat', hlt⟩
    · exact .inl harrives
    · refine .inr ⟨?_, j, y, path, o, o', hj, harrives, hat, hat', hlt⟩
      rw [List.getElem?_eq_getElem (by rw [hlen index hindex]; exact hx), hzero]
  · intro hnothing index hindex x hx
    by_cases harrives : Arrives info base pieces envs index x
    · exact (byteIn_of_arrives hpaths horder h hindex harrives).1
    · obtain ⟨hzero, j, y, path, o, o', hj, harrives', hat, hat', hlt⟩ :=
        (hnothing index hindex x hx).resolve_left harrives
      -- the file is long enough for the byte further on, so this byte is there as well
      obtain ⟨hbyte', -, hy⟩ := byteIn_of_arrives hpaths horder h hj harrives'
      rw [FilePieceManager.byteIn, hat', Option.bind_some, List.getElem?_eq_getElem hy] at hbyte'
      obtain ⟨data, hdata, hend, -⟩ := FileStore.lt_length_of_byteAt hbyte'
      have hthere : fs'.byteAt (path, o) = some data[o] := by
        rw [FileStore.byteAt, hdata, Option.bind_some, List.getElem?_eq_getElem (by omega)]
      rcases hcases hindex hx hat hthere with hno | ⟨hb, -⟩
      · exact absurd hno harrives
      · rw [FilePieceManager.byteIn, hat, Option.bind_some, hthere, hb, hzero]

end Finished

/-- The lengths of all pieces add up to at most a number. -/
theorem sum_pieceLen_le {info : Info H} (hinfo : info.Consistent) {pieces : ℕ → Bytes}
    (hlen : ∀ index < info.pieceCount, (pieces index).length = info.pieceLen index) :
    ((List.range info.pieceCount).flatMap pieces).length ≤ usizeMax := by
  have hsum : ((List.range info.pieceCount).flatMap pieces).length = info.totalLength := by
    rw [List.length_flatMap, ← hinfo.sum_pieceLen]
    exact congrArg List.sum (List.map_congr_left fun index hindex => hlen index (List.mem_range.1 hindex))
  rw [hsum]
  exact info.totalLength_le

/-- **When the output files are those of the torrent**, after every piece has been received once, in any order, into
an empty output folder: no file is empty, the lengths of the files add up to a number, and nothing is missing of what
the calls have answered. -/
theorem finished_download_iff (info : Info H) (hinfo : info.Consistent) (hpaths : info.outputPaths.Nodup)
    (base : Path) (fs fs' : FileStore Path) (hempty : ∀ path, fs (base ++ path) = none) (pieces : ℕ → Bytes)
    (hlen : ∀ index < info.pieceCount, (pieces index).length = info.pieceLen index) (order : List ℕ)
    (horder : order.Perm (List.range info.pieceCount)) (envs : ℕ → WriteEnv)
    (h : WriteCall.performAll ⟨some base, some info⟩ fs (order.map fun i => (.recv i (pieces i), envs i)) =
      some fs') :
    Downloaded info base pieces fs' ↔
      (∀ n ∈ info.fileLengths, 0 < n) ∧ info.fileLengths.sum ≤ usizeMax ∧ NothingMissing info base pieces envs := by
  have hfit : FilesFit info base fs' := by
    refine FilesFit.performAll hpaths ?_ h
    intro path data hdata
    rw [hempty] at hdata
    cases hdata
  constructor
  · intro hdone
    have hcontents := map_byteAt_bytesBelow hdone.lengths
    rw [hdone.contents] at hcontents
    have hsum : info.fileLengths.sum ≤ usizeMax := by
      have hlength := congrArg List.length hcontents
      rw [List.length_map, List.length_map, length_bytesBelow] at hlength
      rw [hlength]
      exact sum_pieceLen_le hinfo hlen
    refine ⟨fun n hn => ?_, hsum, ?_⟩
    · -- an empty file is there, but no file is created that has no byte
      obtain ⟨k, hk⟩ := List.mem_iff_getElem?.1 hn
      have hlt : k < info.outputPaths.length := by
        rw [length_outputPaths]
        exact (List.getElem?_eq_some_iff.1 hk).1
      have hpath : info.outputPaths[k]? = some info.outputPaths[k] := List.getElem?_eq_getElem hlt
      obtain ⟨data, hdata, -⟩ := hdone.lengths k _ n hpath hk
      obtain ⟨k', n', hpath', hk', hpos, -⟩ := hfit _ data hdata
      rw [length_of_path hpaths hpath hpath' hk hk']
      exact hpos
    · exact (byteIn_of_received_iff hinfo hpaths hempty hlen horder h).1
        ((map_byteAt_bytesBelow_iff hinfo hsum hlen).1 hcontents)
  · rintro ⟨hpos, hsum, hnothing⟩
    have hall := (map_byteAt_bytesBelow_iff hinfo hsum hlen).2
      ((byteIn_of_received_iff hinfo hpaths hempty hlen horder h).2 hnothing)
    -- every byte of the torrent is there
    have hbyte : ∀ pos ∈ info.bytesBelow base, ∃ b, fs'.byteAt pos = some b := by
      intro pos hpos
      obtain ⟨b, -, hb⟩ := List.mem_map.1 (hall ▸ List.mem_map_of_mem (f := fs'.byteAt) hpos)
      exact ⟨b, hb.symm⟩
    have hlengths : ∀ (k : ℕ) (path : Path) (n : ℕ), info.outputPaths[k]? = some path →
        info.fileLengths[k]? = some n → ∃ data, fs' (base ++ path) = some data ∧ data.length = n := by
      intro k path n hpath hn
      have hn0 := hpos n (List.mem_of_getElem? hn)
      obtain ⟨b, hb⟩ := hbyte (base ++ path, n - 1) (mem_bytesBelow.2 ⟨k, path, n, hpath, hn, by omega, rfl⟩)
      obtain ⟨data, hdata, hlast, -⟩ := FileStore.lt_length_of_byteAt hb
      obtain ⟨k', n', hpath', hn', -, hle⟩ := hfit path data hdata
      rw [← length_of_path hpaths hpath hpath' hn hn'] at hle
      exact ⟨data, hdata, by omega⟩
    refine ⟨fun path => ⟨fun hsome => ?_, fun hmem => ?_⟩, hlengths, ?_⟩
    · obtain ⟨data, hdata⟩ := Option.isSome_iff_exists.1 hsome
      obtain ⟨k, n, hpath, -⟩ := hfit path data hdata
      exact List.mem_of_getElem? hpath
    · obtain ⟨k, hk⟩ := List.mem_iff_getElem?.1 hmem
      have hlt : k < info.fileLengths.length := by
        rw [← length_outputPaths]
        exact (List.getElem?_eq_some_iff.1 hk).1
      obtain ⟨data, hdata, -⟩ := hlengths k path _ hk (List.getElem?_eq_getElem hlt)
      rw [hdata]
      rfl
    · rw [map_byteAt_bytesBelow hlengths] at hall
      exact List.map_injective_iff.2 (Option.some_injective _) hall

namespace Sample

/-- A torrent of one file with one byte and one empty file. -/
def withEmpty : Info Bytes :=
  { apart with pieces := [[]], file := .multi [⟨1, [['a']], none⟩, ⟨0, [['b']], none⟩] }

end Sample

/-- Two files of one byte each, in two pieces, of which the second is received first. -/
theorem finished_download_sample :
    ∃ fs, WriteCall.performAll ⟨some [['d']], some Sample.apart⟩ (fun _ => none)
        ([1, 0].map fun i => (.recv i [UInt8.ofNat i], .flushed)) = some fs ∧
      Downloaded Sample.apart [['d']] (fun i => [UInt8.ofNat i]) fs := by
  obtain ⟨fs, hfs⟩ := Option.isSome_iff_exists.1 (by decide +kernel :
    (WriteCall.performAll ⟨some [['d']], some Sample.apart⟩ (fun _ => none)
      ([1, 0].map fun i => (.recv i [UInt8.ofNat i], .flushed))).isSome = true)
  refine ⟨fs, hfs, (finished_download_iff Sample.apart Sample.consistent_apart (by decide) [['d']] (fun _ => none) fs
    (fun _ => rfl) (fun i => [UInt8.ofNat i]) (by decide) [1, 0] (by decide) (fun _ => .flushed) hfs).2
      ⟨by decide, by decide, ?_⟩⟩
  have harrives : ∀ index < 2, ∀ x < Sample.apart.pieceLen index,
      FilePieceManager.reaches ⟨some [['d']], some Sample.apart⟩ index 0 1 .flushed x = true := by decide
  exact fun index hindex x hx => .inl (harrives index hindex x hx)

/-- **An empty file is not created**, though its only neighbour has been downloaded. -/
theorem empty_file_not_created :
    Sample.withEmpty.Consistent ∧ Sample.withEmpty.SafeNames ∧ Sample.withEmpty.outputPaths.Nodup ∧
      (Sample.withEmpty.pieceCount = 1 ∧ Sample.withEmpty.pieceLen 0 = 1) ∧
      ∃ fs, WriteCall.performAll ⟨some [['d']], some Sample.withEmpty⟩ (fun _ => none)
          [(.recv 0 [7], .flushed)] = some fs ∧
        ¬Downloaded Sample.withEmpty [['d']] (fun _ => [7]) fs := by
  refine ⟨⟨by decide, by decide⟩, ⟨by decide, by decide⟩, by decide, by decide, ?_⟩
  obtain ⟨fs, hfs, hnone⟩ := (Option.any_eq_true _ _).1 (by decide +kernel :
    (WriteCall.performAll ⟨some [['d']], some Sample.withEmpty⟩ (fun _ => none) [(.recv 0 [7], .flushed)]).any
      (fun fs => (fs [['d'], ['c'], ['b']]).isNone) = true)
  refine ⟨fs, hfs, fun hdone => ?_⟩
  have hsome := (hdone.files [['c'], ['b']]).2 (by decide)
  rw [Option.isNone_iff_eq_none] at hnone
  rw [List.singleton_append, hnone] at hsome
  cases hsome

end Tortillas
