/-
**Where the files of a torrent are written.**

The names in a torrent come from whoever made it.  Each one is checked before it becomes a component
of an output path, so that every output path leads below the output folder; and the paths of a piece
are all checked before the first file is opened.  The name of the torrent is the first component of
the output path of a file, unless the path of the file begins with it already.  This is where two
files can meet: one whose path begins with the name, and one whose path is the rest of that path.

Main definitions:

* `outputPath` — the output path of a file;
* `SafeComponent` — a name that is one step down from a directory;
* `Info.Overlaps` — a file has bytes in a piece.

Main results:

* `relativePath_eq_ok` — which paths are accepted, and what becomes of them;
* `output_paths_distinct_iff` — **two files share an output path exactly when one path is the other
  one behind the name of the torrent**;
* `fileSegments_ne_ok`, `pieceToPaths_ne_ok` — an unsafe name in a piece fails the piece;
* `output_stays_below` — **no torrent writes outside its output folder**.
-/

import Tortillas.PieceManager

set_option relaxedAutoImplicit false
set_option autoImplicit false

namespace Tortillas

variable {H : Type}

/-! ### Output paths -/

/-- The output path of a file, relative to the output folder. -/
def outputPath (name : Text) (path : Path) : Path :=
  if path.head? = some name then path else name :: path

theorem foldlM_pushTorrentPathSegment (path start : Path) {p : Path} :
    path.foldlM pushTorrentPathSegment start = (.ok p : Outcome String Path) ↔
      p = start ++ path ∧ ∀ c ∈ path, isSafeSegment c = true := by
  induction path generalizing start with
  | nil =>
      simp only [List.foldlM_nil, Outcome.pure_eq, Outcome.ok.injEq, List.append_nil,
        List.not_mem_nil, false_implies, implies_true, and_true]
      exact eq_comm
  | cons c path ih =>
      rw [List.foldlM_cons, pushTorrentPathSegment]
      by_cases hc : isSafeSegment c = true
      · rw [if_pos hc, Outcome.ok_bind, ih]
        simp [hc]
      · rw [if_neg hc, Outcome.err_bind]
        refine iff_of_false (by simp) ?_
        rintro ⟨-, h⟩
        exact hc (h c (List.mem_cons_self ..))

/-- **Which paths are accepted, and what becomes of them.** -/
theorem relativePath_eq_ok {name : Text} {path p : Path} :
    relativePath name path = .ok p ↔
      p = outputPath name path ∧ ∀ c ∈ outputPath name path, isSafeSegment c = true := by
  unfold relativePath outputPath
  by_cases hhead : path.head? = some name
  · rw [if_pos hhead, if_pos hhead, Outcome.ok_bind]
    exact foldlM_pushTorrentPathSegment path []
  · rw [if_neg hhead, if_neg hhead, pushTorrentPathSegment]
    by_cases hname : isSafeSegment name = true
    · rw [if_pos hname, Outcome.ok_bind, foldlM_pushTorrentPathSegment]
      simp [hname]
    · rw [if_neg hname, Outcome.err_bind]
      refine iff_of_false (by simp) ?_
      rintro ⟨-, h⟩
      exact hname (h name (List.mem_cons_self ..))

/-- Two paths that are not the same have the same output path only when one is the other one behind
the name. -/
theorem outputPath_eq_iff {name : Text} {p q : Path} (hne : p ≠ q) :
    outputPath name p = outputPath name q ↔
      (p = name :: q ∧ q.head? ≠ some name) ∨ (q = name :: p ∧ p.head? ≠ some name) := by
  unfold outputPath
  by_cases hp : p.head? = some name
  · by_cases hq : q.head? = some name
    · rw [if_pos hp, if_pos hq]
      simp [hne, hp, hq]
    · rw [if_pos hp, if_neg hq]
      simp [hp, hq]
  · by_cases hq : q.head? = some name
    · rw [if_neg hp, if_pos hq]
      simp [hp, hq, eq_comm]
    · rw [if_neg hp, if_neg hq]
      simp only [List.cons.injEq, true_and, hne, false_iff]
      rintro (⟨rfl, -⟩ | ⟨rfl, -⟩)
      · exact hp rfl
      · exact hq rfl

/-- The file list of a torrent with several files. -/
def Info.files (info : Info H) : List InfoFile :=
  match info.file with
  | .single _ _ => []
  | .multi files => files

/-- **Two files share an output path exactly when one path is the other one behind the name of the
torrent.** -/
theorem output_paths_distinct_iff (info : Info H) (hdistinct : (info.files.map InfoFile.path).Nodup)
    (haccepted : ∀ file ∈ info.files, ∃ p, relativePath info.name file.path = .ok p) :
    (∀ (i j : ℕ) (f g : InfoFile) (p q : Path), info.files[i]? = some f →
        info.files[j]? = some g → i ≠ j →
        relativePath info.name f.path = .ok p → relativePath info.name g.path = .ok q →
        p ≠ q ∧ ∀ offset length offset' length',
          Segment.Disjoint ⟨p, offset, length⟩ ⟨q, offset', length'⟩) ↔
      ∀ f ∈ info.files, ∀ g ∈ info.files, f.path = info.name :: g.path →
        g.path.head? = some info.name := by
  constructor
  · intro h f hf g hg hpath
    by_contra hhead
    obtain ⟨i, hi⟩ := List.mem_iff_getElem?.1 hf
    obtain ⟨j, hj⟩ := List.mem_iff_getElem?.1 hg
    obtain ⟨p, hp⟩ := haccepted f hf
    obtain ⟨q, hq⟩ := haccepted g hg
    have hne : f.path ≠ g.path := by
      rw [hpath]
      exact List.cons_ne_self _ _
    have hij : i ≠ j := by
      rintro rfl
      rw [hi] at hj
      cases hj
      exact hne rfl
    refine (h i j f g p q hi hj hij hp hq).1 ?_
    rw [(relativePath_eq_ok.1 hp).1, (relativePath_eq_ok.1 hq).1, outputPath_eq_iff hne]
    exact .inl ⟨hpath, hhead⟩
  · intro h i j f g p q hi hj hij hp hq
    have hne : f.path ≠ g.path := by
      intro heq
      refine hij ((List.getElem?_inj ?_ hdistinct).1 ?_)
      · rw [List.length_map]
        exact (List.getElem?_eq_some_iff.1 hi).1
      · rw [List.getElem?_map, List.getElem?_map, hi, hj, Option.map_some, Option.map_some, heq]
    have hf := List.mem_of_getElem? hi
    have hg := List.mem_of_getElem? hj
    have hpq : p ≠ q := by
      rw [(relativePath_eq_ok.1 hp).1, (relativePath_eq_ok.1 hq).1]
      intro heq
      rcases (outputPath_eq_iff hne).1 heq with ⟨hpath, hhead⟩ | ⟨hpath, hhead⟩
      · exact hhead (h f hf g hg hpath)
      · exact hhead (h g hg f hf hpath)
    exact ⟨hpq, fun _ _ _ _ => Or.inl hpq⟩

namespace Sample

/-- A torrent with the name of a directory that one of its files is in. -/
def colliding : Info Bytes where
  name := ['a']
  pieceLength := 1
  pieces := [[], []]
  file := .multi [⟨1, [['a'], ['b']], none⟩, ⟨1, [['b']], none⟩]
  isPrivate := none
  publisher := none
  publisherUrl := none
  source := none

/-- The same with another name. -/
def apart : Info Bytes := { colliding with name := ['c'] }

end Sample

theorem output_paths_distinct_sample :
    (Sample.apart.files.map InfoFile.path).Nodup ∧
      (∀ file ∈ Sample.apart.files, ∃ p, relativePath Sample.apart.name file.path = .ok p) ∧
      ∀ (i j : ℕ) (f g : InfoFile) (p q : Path), Sample.apart.files[i]? = some f →
        Sample.apart.files[j]? = some g → i ≠ j →
        relativePath Sample.apart.name f.path = .ok p →
        relativePath Sample.apart.name g.path = .ok q →
        p ≠ q ∧ ∀ offset length offset' length',
          Segment.Disjoint ⟨p, offset, length⟩ ⟨q, offset', length'⟩ := by
  have hdistinct : (Sample.apart.files.map InfoFile.path).Nodup := by decide
  have haccepted : ∀ file ∈ Sample.apart.files,
      ∃ p, relativePath Sample.apart.name file.path = .ok p := by
    intro file hfile
    simp only [Sample.apart, Sample.colliding, Info.files, List.mem_cons, List.not_mem_nil,
      or_false] at hfile
    rcases hfile with rfl | rfl
    · exact ⟨_, rfl⟩
    · exact ⟨_, rfl⟩
  exact ⟨hdistinct, haccepted,
    (output_paths_distinct_iff Sample.apart hdistinct haccepted).2 (by decide)⟩

/-- The two bytes of a torrent, of different files, are written to the same place. -/
theorem files_share_output_path :
    (Sample.colliding.files.map InfoFile.path).Nodup ∧
      pieceToPaths (some Sample.colliding) 0 = .ok [⟨[['a'], ['b']], 0, 1⟩] ∧
      pieceToPaths (some Sample.colliding) 1 = .ok [⟨[['a'], ['b']], 0, 1⟩] := by
  refine ⟨by decide, ?_, ?_⟩
  · decide +kernel
  · decide +kernel

/-! ### Unsafe names -/

/-- A name that is one step down from a directory. -/
structure SafeComponent (c : Text) : Prop where
  nonempty : c ≠ []
  notHere : c ≠ ['.']
  notParent : c ≠ ['.', '.']
  noSeparator : '/' ∉ c ∧ '\\' ∉ c ∧ ':' ∉ c

theorem safeComponent_of_isSafeSegment {c : Text} (h : isSafeSegment c = true) :
    SafeComponent c := by
  simp only [isSafeSegment, Bool.and_eq_true, bne_iff_ne, List.all_eq_true] at h
  obtain ⟨⟨⟨hnonempty, hhere⟩, hparent⟩, hall⟩ := h
  refine ⟨hnonempty, hhere, hparent, ?_, ?_, ?_⟩
  · exact fun hmem => absurd rfl (hall '/' hmem).1.1
  · exact fun hmem => absurd rfl (hall '\\' hmem).1.2
  · exact fun hmem => absurd rfl (hall ':' hmem).2

namespace Info

/-- The lengths of the files, in order. -/
def fileLengths (info : Info H) : List ℕ :=
  match info.file with
  | .single length _ => [length.toNat]
  | .multi files => files.map fun file => file.length.toNat

/-- The output paths of the files, in order. -/
def outputPaths (info : Info H) : List Path :=
  match info.file with
  | .single _ _ => [[info.name]]
  | .multi files => files.map fun file => outputPath info.name file.path

/-- A file has a byte in a piece. -/
def Overlaps (info : Info H) (index k : ℕ) : Prop :=
  ∃ n byte, info.fileLengths[k]? = some n ∧ (info.fileLengths.take k).sum ≤ byte ∧
    byte < (info.fileLengths.take k).sum + n ∧ index * info.pieceLength.toNat ≤ byte ∧
    byte < (index + 1) * info.pieceLength.toNat ∧ byte < info.totalLength

/-- A file has an unsafe name in its output path. -/
def Unsafe (info : Info H) (k : ℕ) : Prop :=
  ∃ path, info.outputPaths[k]? = some path ∧ ∃ c ∈ path, isSafeSegment c = false

end Info

/-- The walk over the files does not get past an unsafe name in the piece. -/
theorem fileSegments_ne_ok {name : Text} {start : ℕ} {files : List InfoFile} {k : ℕ}
    {file : InfoFile} {c : Text} {remaining acc : ℕ} (hk : files[k]? = some file)
    (hmem : c ∈ outputPath name file.path) (hc : isSafeSegment c = false)
    (hstart : start <
      acc + ((files.map fun file => file.length.toNat).take k).sum + file.length.toNat)
    (hend : acc + ((files.map fun file => file.length.toNat).take k).sum <
      max start acc + remaining) :
    ∀ found, fileSegments name start files remaining acc ≠ .ok found := by
  intro found h
  induction files generalizing k remaining acc found with
  | nil => simp at hk
  | cons first files ih =>
      rw [fileSegments] at h
      split at h
      · cases h
      · cases k with
        | zero =>
            cases hk
            simp only [List.take_zero, List.sum_nil, Nat.add_zero] at hstart hend
            rw [if_neg (by omega)] at h
            -- the path of this file is asked for, and it is refused
            obtain ⟨path, hpath, -⟩ := Outcome.bind_eq_ok.1 h
            have hsafe := (relativePath_eq_ok.1 hpath).2 c hmem
            rw [hc] at hsafe
            cases hsafe
        | succ k =>
            simp only [List.map_cons, List.take_succ_cons, List.sum_cons] at hstart hend
            split at h
            · exact ih hk (by omega) (by omega) found h
            · rename_i htake
              obtain ⟨path, -, hrest⟩ := Outcome.bind_eq_ok.1 h
              dsimp only at hrest
              split at hrest
              · omega
              · obtain ⟨rest, hrest, -⟩ := Outcome.bind_eq_ok.1 hrest
                exact ih hk (by omega) (by omega) rest hrest

/-- **An unsafe name in a piece fails the piece.** -/
theorem pieceToPaths_ne_ok {info : Info H} {index k : ℕ} (hoverlaps : info.Overlaps index k)
    (hescapes : info.Unsafe k) : ∀ segs, pieceToPaths (some info) index ≠ .ok segs := by
  intro segs h
  obtain ⟨n, byte, hn, hfirst, hlast, hstart, hend, htotal⟩ := hoverlaps
  obtain ⟨path, hpath, c, hmem, hc⟩ := hescapes
  obtain ⟨-, -, -, hfound⟩ := pieceToPaths_eq_ok.1 h
  unfold Info.segmentsFrom at hfound
  unfold Info.outputPaths at hpath
  unfold Info.fileLengths at hn hfirst hlast
  cases hfile : info.file with
  | single length md5sum =>
      simp only [hfile] at hfound hpath hn hlast
      cases k with
      | zero =>
          cases hpath
          cases hn
          simp only [List.take_zero, List.sum_nil, Nat.zero_add] at hlast
          rw [if_pos (by omega), pushTorrentPathSegment,
            if_neg (by rw [List.mem_singleton.1 hmem] at hc; simp [hc])] at hfound
          cases hfound
      | succ k => simp at hpath
  | multi files =>
      simp only [hfile] at hfound hpath hn hfirst hlast
      rw [List.getElem?_map] at hpath hn
      obtain ⟨file, hget, rfl⟩ := Option.map_eq_some_iff.1 hpath
      rw [hget, Option.map_some, Option.some.injEq] at hn
      subst hn
      refine fileSegments_ne_ok hget hmem hc ?_ ?_ _ hfound
      · omega
      · omega

/-! ### Below the output folder -/

/-- Every segment that the walk finds is one of a file whose path has been accepted. -/
theorem path_of_mem_fileSegments {name : Text} {start : ℕ} {files : List InfoFile}
    {remaining acc left : ℕ} {segs : List (Segment Path)}
    (h : fileSegments name start files remaining acc = .ok (segs, left)) :
    ∀ seg ∈ segs, ∃ file ∈ files, relativePath name file.path = .ok seg.path := by
  induction files generalizing remaining acc left segs with
  | nil =>
      cases h
      exact fun _ hseg => absurd hseg List.not_mem_nil
  | cons file files ih =>
      rw [fileSegments] at h
      split at h
      · cases h
      · split at h
        · intro seg hseg
          obtain ⟨file', hmem, hpath⟩ := ih h seg hseg
          exact ⟨file', List.mem_cons_of_mem _ hmem, hpath⟩
        · obtain ⟨path, hpath, hrest⟩ := Outcome.bind_eq_ok.1 h
          dsimp only at hrest
          split at hrest
          · cases hrest
            intro seg hseg
            cases List.mem_singleton.1 hseg
            exact ⟨file, List.mem_cons_self .., hpath⟩
          · obtain ⟨⟨rest, left'⟩, hwalk, hfound⟩ := Outcome.bind_eq_ok.1 hrest
            cases hfound
            intro seg hseg
            rcases List.mem_cons.1 hseg with rfl | hmem
            · exact ⟨file, List.mem_cons_self .., hpath⟩
            · obtain ⟨file', hmem', hpath'⟩ := ih hwalk seg hmem
              exact ⟨file', List.mem_cons_of_mem _ hmem', hpath'⟩

theorem outputPath_ne_nil (name : Text) (path : Path) : outputPath name path ≠ [] := by
  unfold outputPath
  split
  · rename_i hhead
    rintro rfl
    cases hhead
  · exact List.cons_ne_nil _ _

/-- The paths of a piece are made of safe names, and of at least one. -/
theorem safe_of_mem_pieceToPaths {info : Info H} {index : ℕ} {segs : List (Segment Path)}
    (h : pieceToPaths (some info) index = .ok segs) :
    ∀ seg ∈ segs, seg.path ≠ [] ∧ ∀ c ∈ seg.path, SafeComponent c := by
  obtain ⟨-, -, -, hfound⟩ := pieceToPaths_eq_ok.1 h
  intro seg hseg
  unfold Info.segmentsFrom at hfound
  split at hfound
  · split at hfound
    · obtain ⟨path, hpath, hrest⟩ := Outcome.bind_eq_ok.1 hfound
      rw [Outcome.ok.injEq, Prod.mk.injEq] at hrest
      rw [← hrest.1] at hseg
      cases List.mem_singleton.1 hseg
      unfold pushTorrentPathSegment at hpath
      split at hpath
      · rename_i hsafe
        cases hpath
        refine ⟨List.cons_ne_nil _ _, fun c hc => ?_⟩
        cases List.mem_singleton.1 hc
        exact safeComponent_of_isSafeSegment hsafe
      · cases hpath
    · rw [Outcome.ok.injEq, Prod.mk.injEq] at hfound
      rw [← hfound.1] at hseg
      exact absurd hseg List.not_mem_nil
  · obtain ⟨file, -, hpath⟩ := path_of_mem_fileSegments hfound seg hseg
    obtain ⟨hout, hsafe⟩ := relativePath_eq_ok.1 hpath
    rw [hout]
    exact ⟨outputPath_ne_nil _ _, fun c hc => safeComponent_of_isSafeSegment (hsafe c hc)⟩

namespace FilePieceManager

/-- `write_block`. -/
def writeBlock (m : FilePieceManager H) (fs : FileStore Path) (index offset : ℕ) (block : Bytes)
    (env : WriteEnv) : WriteResult Path :=
  m.writePieceRange fs index offset block env

/-- `recv`: a whole piece. -/
def recv (m : FilePieceManager H) (fs : FileStore Path) (index : ℕ) (data : Bytes)
    (env : WriteEnv) : WriteResult Path :=
  match m.info with
  | none => ⟨fs, false, []⟩
  | some _ => m.writePieceRange fs index 0 data env

/-- The directories a write asks for, each right before its file is opened. -/
def createdDirectories (m : FilePieceManager H) (index offset : ℕ) (data : Bytes) : List Path :=
  match m.path, pieceRangeSegments m.info index offset data.length with
  | some base, .ok segs => segs.map fun seg => (base ++ seg.path).dropLast
  | _, _ => []

variable {m : FilePieceManager H} {index : ℕ}

/-- No range of a piece that is not laid out has segments, unless it is empty. -/
theorem pieceRangeSegments_ne_ok (hm : ∀ segs, pieceToPaths m.info index ≠ .ok segs)
    (offset : ℕ) {data : Bytes} (hdata : data ≠ []) :
    ∀ segs, pieceRangeSegments m.info index offset data.length ≠ .ok segs := by
  intro segs h
  rw [pieceRangeSegments, if_neg (List.length_pos_iff.2 hdata).ne'] at h
  obtain ⟨found, hfound, -⟩ := Outcome.bind_eq_ok.1 h
  exact hm found hfound

/-- A write that has no segments does nothing. -/
theorem writePieceRange_of_ne_ok (fs : FileStore Path) {offset : ℕ} {data : Bytes}
    (h : ∀ segs, pieceRangeSegments m.info index offset data.length ≠ .ok segs)
    (env : WriteEnv) :
    m.writePieceRange fs index offset data env = ⟨fs, false, []⟩ ∧
      m.createdDirectories index offset data = [] := by
  unfold writePieceRange createdDirectories
  cases m.path with
  | none => exact ⟨rfl, rfl⟩
  | some base =>
      cases hsegs : pieceRangeSegments m.info index offset data.length with
      | ok segs => exact absurd hsegs (h segs)
      | err e => exact ⟨rfl, rfl⟩
      | panic => exact ⟨rfl, rfl⟩

/-- A write of nothing does nothing. -/
theorem writePieceRange_nil (m : FilePieceManager H) (fs : FileStore Path) (index offset : ℕ)
    (env : WriteEnv) :
    (m.writePieceRange fs index offset [] env).files = fs ∧
      (m.writePieceRange fs index offset [] env).late = [] ∧ m.createdDirectories index offset [] = [] := by
  unfold writePieceRange createdDirectories
  cases m.path with
  | none => exact ⟨rfl, rfl, rfl⟩
  | some base => exact ⟨rfl, rfl, rfl⟩

end FilePieceManager

/-- **What is written is below the output folder**, at once or later. -/
theorem below_of_writePieceRange {info : Info H} {m : FilePieceManager H} {base : Path}
    (hinfo : m.info = some info) (hbase : m.path = some base) (fs : FileStore Path) (index offset : ℕ)
    (data : Bytes) (env : WriteEnv) :
    (∀ path, (m.writePieceRange fs index offset data env).files path ≠ fs path →
      base <+: path ∧ path ≠ base) ∧
    ∀ w ∈ (m.writePieceRange fs index offset data env).late, base <+: w.path ∧ w.path ≠ base := by
  have hbelow : ∀ segs, pieceToPaths (some info) index = .ok segs → ∀ seg ∈ segs,
      base <+: base ++ seg.path ∧ base ++ seg.path ≠ base := by
    intro segs hsegs seg hseg
    obtain ⟨hne, -⟩ := safe_of_mem_pieceToPaths hsegs seg hseg
    exact ⟨List.prefix_append _ _, fun heq => hne (List.append_right_eq_self.1 heq)⟩
  constructor
  · intro path hchanged
    by_contra hnot
    refine hchanged (FilePieceManager.writePieceRange_apply_of_ne ?_ offset data env)
    rintro base' segs hbase' hsegs seg hseg rfl
    cases hbase.symm.trans hbase'
    rw [hinfo] at hsegs
    exact hnot (hbelow segs hsegs seg hseg)
  · intro w hw
    obtain ⟨base', segs, hbase', hsegs, seg, hseg, hpath⟩ := FilePieceManager.mem_late_writePieceRange hw
    cases hbase.symm.trans hbase'
    rw [hinfo] at hsegs
    rw [hpath]
    exact hbelow segs hsegs seg hseg

/-- **No torrent writes outside its output folder.**  Every path of a piece leads down from the output folder by at
least one safe name, and so does every path that is written; and where a file in the piece has an unsafe name,
nothing is created, now or later: a read fails, and a write fails unless it has nothing to write. -/
theorem output_stays_below (info : Info H) :
    (∀ index segs, pieceToPaths (some info) index = .ok segs → ∀ seg ∈ segs,
      seg.path ≠ [] ∧ (∀ c ∈ seg.path, SafeComponent c) ∧
        ∀ base, base <+: (FilePieceManager.under base seg).path ∧
          (FilePieceManager.under base seg).path ≠ base) ∧
    (∀ (m : FilePieceManager H) (base : Path), m.info = some info → m.path = some base →
      ∀ (fs : FileStore Path) (index offset : ℕ) (data : Bytes) (env : WriteEnv),
        (∀ path, (m.writePieceRange fs index offset data env).files path ≠ fs path →
          base <+: path ∧ path ≠ base) ∧
        ∀ w ∈ (m.writePieceRange fs index offset data env).late, base <+: w.path ∧ w.path ≠ base) ∧
    (∀ index k, info.Overlaps index k → info.Unsafe k →
      ∀ (m : FilePieceManager H) (fs : FileStore Path), m.info = some info →
        m.readPiece fs index = none ∧
        ∀ (offset : ℕ) (data : Bytes) (env : WriteEnv),
          ((m.writeBlock fs index offset data env).files = fs ∧
            (m.writeBlock fs index offset data env).late = []) ∧
          ((m.recv fs index data env).files = fs ∧ (m.recv fs index data env).late = []) ∧
          m.createdDirectories index offset data = [] ∧
          (data ≠ [] → (m.writeBlock fs index offset data env).ok = false ∧
            (m.recv fs index data env).ok = false)) := by
  refine ⟨?_, fun m base hinfo hbase => below_of_writePieceRange hinfo hbase, ?_⟩
  · intro index segs h seg hseg
    obtain ⟨hne, hsafe⟩ := safe_of_mem_pieceToPaths h seg hseg
    refine ⟨hne, hsafe, fun base => ⟨List.prefix_append _ _, ?_⟩⟩
    exact fun heq => hne (List.append_right_eq_self.1 heq)
  · intro index k hoverlaps hescapes m fs hinfo
    have hm : ∀ segs, pieceToPaths m.info index ≠ .ok segs := by
      rw [hinfo]
      exact pieceToPaths_ne_ok hoverlaps hescapes
    refine ⟨?_, ?_⟩
    · unfold FilePieceManager.readPiece
      split
      · rename_i segs hsegs
        exact absurd hsegs (hm segs)
      · rfl
    · intro offset data env
      simp only [FilePieceManager.writeBlock, FilePieceManager.recv, hinfo]
      by_cases hdata : data = []
      · subst hdata
        obtain ⟨hfs, hlate, hdirs⟩ := FilePieceManager.writePieceRange_nil m fs index offset env
        obtain ⟨hfs', hlate', -⟩ := FilePieceManager.writePieceRange_nil m fs index 0 env
        exact ⟨⟨hfs, hlate⟩, ⟨hfs', hlate'⟩, hdirs, fun hne => absurd rfl hne⟩
      · obtain ⟨hwrite, hdirs⟩ := FilePieceManager.writePieceRange_of_ne_ok fs
          (FilePieceManager.pieceRangeSegments_ne_ok hm offset hdata) env
        obtain ⟨hrecv, -⟩ := FilePieceManager.writePieceRange_of_ne_ok fs
          (FilePieceManager.pieceRangeSegments_ne_ok hm 0 hdata) env
        rw [hwrite, hrecv]
        exact ⟨⟨rfl, rfl⟩, ⟨rfl, rfl⟩, hdirs, fun _ => ⟨rfl, rfl⟩⟩

namespace Sample

/-- A torrent whose only file is the parent directory. -/
def escaping : Info Bytes := { colliding with name := ['.', '.'], file := .single 2 none }

def outside : FilePieceManager Bytes := ⟨some [['d']], some escaping⟩

end Sample

theorem output_stays_below_sample :
    Sample.escaping.Overlaps 0 0 ∧ Sample.escaping.Unsafe 0 ∧
      (Sample.outside.writeBlock (fun _ => none) 0 0 [1] .flushed).files = (fun _ => none) ∧
      (Sample.outside.writeBlock (fun _ => none) 0 0 [1] .flushed).ok = false := by
  have hoverlaps : Sample.escaping.Overlaps 0 0 := ⟨2, 0, by decide⟩
  have hescapes : Sample.escaping.Unsafe 0 := ⟨[['.', '.']], by decide⟩
  obtain ⟨hfs, -, -, hfails⟩ := ((output_stays_below Sample.escaping).2.2 0 0 hoverlaps hescapes
    Sample.outside (fun _ => none) rfl).2 0 [1] .flushed
  exact ⟨hoverlaps, hescapes, hfs.1, (hfails (by decide)).1⟩

/-- A write of nothing succeeds, whatever the names are. -/
theorem empty_write_succeeds :
    Sample.escaping.Overlaps 0 0 ∧ Sample.escaping.Unsafe 0 ∧
      (Sample.outside.writeBlock (fun _ => none) 0 0 [] .flushed).ok = true :=
  ⟨⟨2, 0, by decide⟩, ⟨[['.', '.']], by decide⟩, by decide⟩

end Tortillas
