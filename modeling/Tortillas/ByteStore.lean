/-
**A faithful byte store: files, ranges and segments.**

A file is a byte string under a path.  Writing at an offset keeps all other bytes and fills a gap
before the offset with zeros; reading a range fails when the file ends inside it.  A list of
segments lays a byte string out over ranges of several files, one after the other.

A write may be cut short: then a first part of a segment has been written and the rest has not.  Whoever
waits for the file to be flushed is told so.  Whoever does not may be answered that all went well; what
is left is then written in the background, later or never.

Main definitions:

* `writeAt`, `readAt` — a range of one byte string;
* `FileStore` — the files, with `FileStore.write` and `FileStore.read`;
* `Segment`, `Segment.Disjoint`, `Segment.Within` — ranges of files, and how they lie;
* `SegmentWrite`, `LateWrite` — what becomes of the write of a segment, and what is left of it;
* `FileStore.writeSegments`, `FileStore.readSegments` — data laid out over segments.

Main results:

* `readAt_writeAt_of_disjoint` — writing outside a range does not change what is read from it;
* `FileStore.readSegments_writeSegments` — **the frame rule**: segments disjoint from the written
  ones read the same as before, whether the write was cut short or not;
* `FileStore.writeSegments_late_of_flush` — a write that is flushed leaves nothing to be written;
* `FileStore.writeSegments_apply_of_ne` — files that no segment names are left alone.
-/

import Tortillas.Bytes
import Mathlib.Logic.Function.Basic

set_option relaxedAutoImplicit false
set_option autoImplicit false

namespace Tortillas

/-! ### One byte string -/

/-- Write a block at an offset; a gap before the offset is filled with zeros. -/
def writeAt (data : Bytes) (offset : ℕ) (block : Bytes) : Bytes :=
  if block = [] then data
  else
    data.take offset ++ List.replicate (offset - data.length) 0 ++ block
      ++ data.drop (offset + block.length)

/-- Read exactly `length` bytes from an offset. -/
def readAt (data : Bytes) (offset length : ℕ) : Option Bytes :=
  if length = 0 then some []
  else if offset + length ≤ data.length then some ((data.drop offset).take length)
  else none

theorem readAt_eq_some {data found : Bytes} {offset length : ℕ} (hlen : 0 < length)
    (h : readAt data offset length = some found) :
    offset + length ≤ data.length ∧ found = (data.drop offset).take length := by
  unfold readAt at h
  rw [if_neg (by omega)] at h
  split at h
  · rename_i hle
    exact ⟨hle, (Option.some.inj h).symm⟩
  · cases h

theorem length_writeAt {data block : Bytes} {offset : ℕ} (h : block ≠ []) :
    (writeAt data offset block).length = max data.length (offset + block.length) := by
  rw [writeAt, if_neg h]
  simp only [List.length_append, List.length_take, List.length_replicate, List.length_drop]
  omega

/-- A byte outside the written range is the one that was there. -/
theorem getElem?_writeAt_of_outside {data block : Bytes} {offset i : ℕ} (hi : i < data.length)
    (h : i < offset ∨ offset + block.length ≤ i) : (writeAt data offset block)[i]? = data[i]? := by
  unfold writeAt
  split
  · rfl
  · rcases h with hlt | hge
    · rw [List.append_assoc, List.append_assoc, List.getElem?_append_left]
      · rw [List.getElem?_take, if_pos hlt]
      · rw [List.length_take]
        omega
    · rw [List.getElem?_append_right]
      · rw [List.getElem?_drop]
        congr 1
        simp only [List.length_append, List.length_take, List.length_replicate]
        omega
      · simp only [List.length_append, List.length_take, List.length_replicate]
        omega

/-- Writing outside a range does not change what is read from it. -/
theorem readAt_writeAt_of_disjoint {data block found : Bytes} {offset offset' length : ℕ}
    (hread : readAt data offset' length = some found)
    (h : offset' + length ≤ offset ∨ offset + block.length ≤ offset') :
    readAt (writeAt data offset block) offset' length = some found := by
  rcases Nat.eq_zero_or_pos length with rfl | hlen
  · exact hread
  · by_cases hblock : block = []
    · rw [writeAt, if_pos hblock]
      exact hread
    · obtain ⟨hle, rfl⟩ := readAt_eq_some hlen hread
      have hle' : offset' + length ≤ (writeAt data offset block).length := by
        rw [length_writeAt hblock]
        omega
      rw [readAt, if_neg (by omega), if_pos hle']
      congr 1
      refine List.ext_getElem? ?_
      intro i
      rw [List.getElem?_take, List.getElem?_take]
      split
      · rename_i hi
        rw [List.getElem?_drop, List.getElem?_drop]
        exact getElem?_writeAt_of_outside (by omega) (by omega)
      · rfl

/-! ### Files -/

/-- The files of a store, by path. -/
def FileStore (P : Type) := P → Option Bytes

/-- A range of a file. -/
structure Segment (P : Type) where
  path : P
  offset : ℕ
  length : ℕ
  deriving DecidableEq, Repr

variable {P : Type}

namespace Segment

/-- Two ranges that share no byte. -/
def Disjoint (a b : Segment P) : Prop :=
  a.path ≠ b.path ∨ a.offset + a.length ≤ b.offset ∨ b.offset + b.length ≤ a.offset

/-- A range that lies inside another. -/
structure Within (a b : Segment P) : Prop where
  path : a.path = b.path
  start : b.offset ≤ a.offset
  stop : a.offset + a.length ≤ b.offset + b.length

theorem Disjoint.symm {a b : Segment P} (h : Disjoint a b) : Disjoint b a := by
  rcases h with hne | hlt | hgt
  · exact Or.inl fun heq => hne heq.symm
  · exact Or.inr (Or.inr hlt)
  · exact Or.inr (Or.inl hgt)

theorem Within.disjoint {a b c : Segment P} (h : Within a b) (hd : Disjoint b c) :
    Disjoint a c := by
  have hstart := h.start
  have hstop := h.stop
  rcases hd with hne | hlt | hgt
  · exact Or.inl (h.path ▸ hne)
  · exact Or.inr (Or.inl (by omega))
  · exact Or.inr (Or.inr (by omega))

end Segment

namespace FileStore

variable [DecidableEq P]

/-- Write a block into a file, which is created if it does not exist. -/
def write (fs : FileStore P) (path : P) (offset : ℕ) (block : Bytes) : FileStore P :=
  Function.update fs path (some (writeAt ((fs path).getD []) offset block))

/-- Read exactly `length` bytes of a file. -/
def read (fs : FileStore P) (path : P) (offset length : ℕ) : Option Bytes :=
  (fs path).bind fun data => readAt data offset length

theorem write_apply_self (fs : FileStore P) (path : P) (offset : ℕ) (block : Bytes) :
    fs.write path offset block path = some (writeAt ((fs path).getD []) offset block) :=
  Function.update_self ..

theorem write_apply_of_ne {fs : FileStore P} {path path' : P} {offset : ℕ} {block : Bytes}
    (h : path' ≠ path) : fs.write path offset block path' = fs path' :=
  Function.update_of_ne h _ _

theorem read_write_of_disjoint {fs : FileStore P} {seg seg' : Segment P} {block found : Bytes}
    (hread : fs.read seg'.path seg'.offset seg'.length = some found)
    (hd : Segment.Disjoint seg seg') (hlen : block.length ≤ seg.length) :
    (fs.write seg.path seg.offset block).read seg'.path seg'.offset seg'.length = some found := by
  by_cases hpath : seg'.path = seg.path
  · obtain ⟨data, hdata, hat⟩ := Option.bind_eq_some_iff.1 hread
    rw [hpath] at hdata
    rw [read, hpath, write_apply_self, hdata, Option.bind_some, Option.getD_some]
    refine readAt_writeAt_of_disjoint hat ?_
    rcases hd with hne | hlt | hgt
    · exact absurd hpath.symm hne
    · exact Or.inr (by omega)
    · exact Or.inl (by omega)
  · rw [read, write_apply_of_ne hpath]
    exact hread

end FileStore

/-! ### Data laid out over segments -/

/-- What becomes of the write of a segment: the file cannot be opened, or all of it is written, or it is
cut short after some bytes, which may be reported or not. -/
inductive SegmentWrite
  | refused
  | flushed
  | cut (written : ℕ) (reported : Bool)
  deriving DecidableEq, Repr

/-- What becomes of the segments of a write, by their number. -/
def WriteEnv := ℕ → SegmentWrite

namespace WriteEnv

/-- What becomes of the segments after the first. -/
def tail (env : WriteEnv) : WriteEnv := fun n => env (n + 1)

/-- All is written. -/
def flushed : WriteEnv := fun _ => .flushed

/-- Whatever is cut short is reported. -/
def Reports (env : WriteEnv) : Prop := ∀ n k, env n ≠ .cut k false

theorem Reports.tail {env : WriteEnv} (h : env.Reports) : env.tail.Reports := fun n => h (n + 1)

theorem reports_flushed : flushed.Reports := nofun

end WriteEnv

/-- What is left of a write that has been answered: bytes that are written in the background. -/
structure LateWrite (P : Type) where
  path : P
  offset : ℕ
  bytes : Bytes
  deriving DecidableEq, Repr

/-- What a write comes to: the files when it is answered, the answer, and what is left to be written. -/
structure WriteResult (P : Type) where
  files : FileStore P
  ok : Bool
  late : List (LateWrite P)

/-- Something may be left to be written. -/
def WriteResult.leave (result : WriteResult P) (rest : LateWrite P) : WriteResult P :=
  if rest.bytes = [] then result else { result with late := rest :: result.late }

namespace WriteResult

variable {result : WriteResult P} {rest : LateWrite P}

@[simp] theorem leave_files : (result.leave rest).files = result.files := by
  unfold leave
  split <;> rfl

@[simp] theorem leave_ok : (result.leave rest).ok = result.ok := by
  unfold leave
  split <;> rfl

theorem mem_leave {w : LateWrite P} (h : w ∈ (result.leave rest).late) : w = rest ∨ w ∈ result.late := by
  unfold leave at h
  split at h
  · exact .inr h
  · exact List.mem_cons.1 h

theorem rest_mem_leave (h : rest.bytes ≠ []) : rest ∈ (result.leave rest).late := by
  rw [leave, if_neg h]
  exact List.mem_cons_self ..

theorem mem_leave_of_mem {w : LateWrite P} (h : w ∈ result.late) : w ∈ (result.leave rest).late := by
  unfold leave
  split
  · exact h
  · exact List.mem_cons_of_mem _ h

end WriteResult

namespace FileStore

variable [DecidableEq P]

/-- Write data over segments, one file after the other, and stop where an error is reported.  A write that
is flushed reports everything that breaks off. -/
def writeSegments (flush : Bool) (fs : FileStore P) :
    List (Segment P) → Bytes → WriteEnv → WriteResult P
  | [], _, _ => ⟨fs, true, []⟩
  | seg :: segs, data, env =>
      let head := data.take seg.length
      match env 0 with
      | .refused => ⟨fs, false, []⟩
      | .flushed =>
          (fs.write seg.path seg.offset head).writeSegments flush segs (data.drop seg.length) env.tail
      | .cut k reported =>
          if reported || flush then ⟨fs.write seg.path seg.offset (head.take k), false, []⟩
          else
            ((fs.write seg.path seg.offset (head.take k)).writeSegments flush segs
              (data.drop seg.length) env.tail).leave ⟨seg.path, seg.offset + k, head.drop k⟩

/-- Read the data laid out over segments. -/
def readSegments (fs : FileStore P) : List (Segment P) → Option Bytes
  | [] => some []
  | seg :: segs => do
      let head ← fs.read seg.path seg.offset seg.length
      let rest ← fs.readSegments segs
      return head ++ rest

omit [DecidableEq P] in
theorem readSegments_cons (fs : FileStore P) (seg : Segment P) (segs : List (Segment P)) :
    fs.readSegments (seg :: segs) =
      (fs.read seg.path seg.offset seg.length).bind fun head =>
        (fs.readSegments segs).bind fun rest => some (head ++ rest) := rfl

/-- Induction over a write: what is kept by writing into one of the segments is kept. -/
theorem writeSegments_induct {I : FileStore P → Prop} (segs : List (Segment P))
    (hwrite : ∀ (fs : FileStore P) (seg : Segment P) (block : Bytes), seg ∈ segs →
      block.length ≤ seg.length → I fs → I (fs.write seg.path seg.offset block)) :
    ∀ (flush : Bool) (fs : FileStore P) (data : Bytes) (env : WriteEnv), I fs →
      I (fs.writeSegments flush segs data env).files := by
  induction segs with
  | nil =>
      intro flush fs data env hI
      exact hI
  | cons seg segs ih =>
      have hrest := ih fun fs seg' block hmem => hwrite fs seg' block (List.mem_cons_of_mem _ hmem)
      intro flush fs data env hI
      have hhead : ∀ block : Bytes, block.length ≤ seg.length →
          I (fs.write seg.path seg.offset block) :=
        fun block hlen => hwrite fs seg block (List.mem_cons_self ..) hlen hI
      have hall := hhead (data.take seg.length) (List.length_take_le ..)
      have hcut : ∀ k, I (fs.write seg.path seg.offset ((data.take seg.length).take k)) := by
        refine fun k => hhead _ ?_
        rw [List.length_take, List.length_take]
        omega
      rw [writeSegments]
      cases env 0 with
      | refused => exact hI
      | flushed => exact hrest _ _ _ _ hall
      | cut k reported =>
          dsimp only
          split
          · exact hcut k
          · rw [WriteResult.leave_files]
            exact hrest _ _ _ _ (hcut k)

/-- A write that is flushed leaves nothing to be written. -/
theorem writeSegments_late_of_flush (fs : FileStore P) (segs : List (Segment P)) (data : Bytes)
    (env : WriteEnv) : (fs.writeSegments true segs data env).late = [] := by
  induction segs generalizing fs data env with
  | nil => rfl
  | cons seg segs ih =>
      rw [writeSegments]
      cases env 0 with
      | refused => rfl
      | flushed => exact ih _ _ _
      | cut k reported =>
          dsimp only
          rw [Bool.or_true, if_pos rfl]

/-- Nor does one of which everything that is cut short is reported. -/
theorem writeSegments_late_of_reports {env : WriteEnv} (h : env.Reports) (flush : Bool) (fs : FileStore P)
    (segs : List (Segment P)) (data : Bytes) : (fs.writeSegments flush segs data env).late = [] := by
  induction segs generalizing fs data env with
  | nil => rfl
  | cons seg segs ih =>
      rw [writeSegments]
      cases henv : env 0 with
      | refused => rfl
      | flushed => exact ih h.tail _ _
      | cut k reported =>
          cases reported with
          | false => exact absurd henv (h 0 k)
          | true => rfl

/-- What is left to be written goes to one of the files. -/
theorem mem_late_writeSegments {flush : Bool} {fs : FileStore P} {segs : List (Segment P)} {data : Bytes}
    {env : WriteEnv} {w : LateWrite P} (h : w ∈ (fs.writeSegments flush segs data env).late) :
    ∃ seg ∈ segs, w.path = seg.path := by
  induction segs generalizing fs data env with
  | nil => cases h
  | cons seg segs ih =>
      have hrest : ∀ {fs' : FileStore P},
          w ∈ (fs'.writeSegments flush segs (data.drop seg.length) env.tail).late →
          ∃ seg' ∈ seg :: segs, w.path = seg'.path := by
        intro fs' hmem
        obtain ⟨seg', hseg', hpath⟩ := ih hmem
        exact ⟨seg', List.mem_cons_of_mem _ hseg', hpath⟩
      rw [writeSegments] at h
      cases henv : env 0 with
      | refused =>
          rw [henv] at h
          cases h
      | flushed =>
          rw [henv] at h
          exact hrest h
      | cut k reported =>
          rw [henv] at h
          dsimp only at h
          split at h
          · cases h
          · rcases WriteResult.mem_leave h with rfl | hmem
            · exact ⟨seg, List.mem_cons_self .., rfl⟩
            · exact hrest hmem

/-- Files that no segment names are left alone. -/
theorem writeSegments_apply_of_ne {fs : FileStore P} {segs : List (Segment P)} {path : P}
    (h : ∀ seg ∈ segs, seg.path ≠ path) (flush : Bool) (data : Bytes) (env : WriteEnv) :
    (fs.writeSegments flush segs data env).files path = fs path := by
  refine writeSegments_induct (I := fun fs' => fs' path = fs path) segs ?_ flush fs data env rfl
  intro fs' seg block hmem _ hI
  rw [write_apply_of_ne (fun heq => h seg hmem heq.symm)]
  exact hI

/-- **The frame rule.** -/
theorem readSegments_writeSegments {fs : FileStore P} {segs segs' : List (Segment P)}
    {found : Bytes} (hread : fs.readSegments segs' = some found)
    (hd : ∀ seg ∈ segs, ∀ seg' ∈ segs', Segment.Disjoint seg seg')
    (flush : Bool) (data : Bytes) (env : WriteEnv) :
    (fs.writeSegments flush segs data env).files.readSegments segs' = some found := by
  refine writeSegments_induct (I := fun fs' => fs'.readSegments segs' = some found) segs ?_
    flush fs data env hread
  intro fs' seg block hmem hlen hI
  -- One write: each segment that is read lies outside the segment that is written.
  have hdisj := hd seg hmem
  clear hd hread
  induction segs' generalizing found with
  | nil => exact hI
  | cons seg' segs' ih =>
      rw [readSegments_cons] at hI ⊢
      obtain ⟨head, hhead, hI⟩ := Option.bind_eq_some_iff.1 hI
      obtain ⟨rest, hrest, heq⟩ := Option.bind_eq_some_iff.1 hI
      have hhead' := read_write_of_disjoint hhead (hdisj seg' (List.mem_cons_self ..)) hlen
      have hrest' := ih hrest fun s hs => hdisj s (List.mem_cons_of_mem _ hs)
      rw [hhead', Option.bind_some, hrest', Option.bind_some]
      exact heq

end FileStore

end Tortillas
