/-
**A byte store, byte by byte.**

Reading and writing of segments is said byte by byte here: the bytes of a list of segments are a list of positions
in files, reading the segments reads these positions one after the other, and writing data over them leaves at each
position the byte of the data with the same number, provided that no position occurs twice and the byte is written
before the call answers.  A byte at any other position stays; a byte that was not there may come into being, as the
zero of a gap.

Main definitions:

* `FileStore.byteAt` — the byte at a position;
* `WriteEnv.reaches` — whether a byte of the data is written before the call answers.

Main results:

* `FileStore.readSegments_eq_some_iff` — **reading segments is reading their positions**;
* `FileStore.writeSegments_invariant` — **the rule for a write**: what each of its bytes keeps is kept;
* `FileStore.byteAt_writeSegments_of_agree` — **a write leaves alone what it agrees with**;
* `FileStore.byteAt_writeSegments_of_not_mem` — **the frame rule for bytes**;
* `FileStore.byteAt_writeSegments_of_reaches` — **what has been written is there**;
* `FileStore.byteAt_writeSegments_cases` — and nothing else but zeros comes into being.
-/

import Tortillas.Layout

set_option relaxedAutoImplicit false
set_option autoImplicit false

namespace Tortillas

variable {P : Type}

/-- The bytes of a part of a segment. -/
theorem Segment.positions_cut (seg : Segment P) (skipped taken : ℕ) :
    (⟨seg.path, seg.offset + skipped, min taken (seg.length - skipped)⟩ : Segment P).positions =
      (seg.positions.drop skipped).take taken := by
  rw [positions, positions, ← List.map_drop, ← List.map_take, List.drop_range', Nat.mul_one]
  dsimp only
  rcases Nat.le_total taken (seg.length - skipped) with hle | hge
  · rw [Nat.min_eq_left hle, List.take_range'_of_length_ge hle]
  · rw [Nat.min_eq_right hge, List.take_range'_of_length_le hge]

namespace FileStore

/-- The byte at a position: a file and an offset in it. -/
def byteAt (fs : FileStore P) (pos : P × ℕ) : Option UInt8 := (fs pos.1).bind (·[pos.2]?)

/-- A file that has a byte is as long. -/
theorem lt_length_of_byteAt {fs : FileStore P} {path : P} {k : ℕ} {b : UInt8} (h : fs.byteAt (path, k) = some b) :
    ∃ data, fs path = some data ∧ k < data.length ∧ data[k]? = some b := by
  obtain ⟨data, hdata, hk⟩ := Option.bind_eq_some_iff.1 h
  exact ⟨data, hdata, (List.getElem?_eq_some_iff.1 hk).1, hk⟩

/-! ### Reading -/

/-- The bytes of a range are there exactly when the file does not end before. -/
theorem map_getElem?_range' {data found : Bytes} {offset length : ℕ} :
    (List.range' offset length).map (fun k => data[k]?) = found.map some ↔
      (length = 0 ∨ offset + length ≤ data.length) ∧ found = (data.drop offset).take length := by
  constructor
  · intro h
    have hlen : found.length = length := by
      have := congrArg List.length h
      simpa using this.symm
    have hget : ∀ k, k < length → data[offset + k]? = found[k]? := by
      intro k hk
      have hk' := congrArg (fun l => l[k]?) h
      simp only [List.getElem?_map, List.getElem?_range' hk, Option.map_some, Nat.one_mul] at hk'
      rw [List.getElem?_eq_getElem (l := found) (by omega)] at hk' ⊢
      simpa using hk'
    refine ⟨?_, ?_⟩
    · rcases Nat.eq_zero_or_pos length with hzero | hpos
      · exact .inl hzero
      · have hlast := hget (length - 1) (by omega)
        rw [List.getElem?_eq_getElem (l := found) (by omega)] at hlast
        have := (List.getElem?_eq_some_iff.1 hlast).1
        exact .inr (by omega)
    · refine List.ext_getElem? fun k => ?_
      rw [List.getElem?_take, List.getElem?_drop]
      split
      · rename_i hk
        exact (hget k hk).symm
      · exact List.getElem?_eq_none (by omega)
  · rintro ⟨hfits, rfl⟩
    refine List.ext_getElem? fun k => ?_
    rw [List.getElem?_map, List.getElem?_map, List.getElem?_take, List.getElem?_drop]
    split
    · rename_i hk
      rw [List.getElem?_range' hk, List.getElem?_eq_getElem (by omega : offset + k < data.length)]
      simp [List.getElem?_eq_getElem (by omega : offset + k < data.length)]
    · rename_i hk
      rw [List.getElem?_eq_none (by simp; omega)]
      rfl

/-- Reading a range reads its positions. -/
theorem read_eq_some_iff {fs : FileStore P} {seg : Segment P} {found : Bytes} (hpos : 0 < seg.length) :
    fs.read seg.path seg.offset seg.length = some found ↔ seg.positions.map fs.byteAt = found.map some := by
  rw [Segment.positions, List.map_map, read]
  cases hfile : fs seg.path with
  | none =>
      refine iff_of_false (Option.some_ne_none found).symm fun h => ?_
      obtain ⟨n, hn⟩ := Nat.exists_eq_succ_of_ne_zero hpos.ne'
      rw [hn, List.range'_succ, List.map_cons] at h
      cases found with
      | nil => cases h
      | cons b found =>
          have hhead := (List.cons.inj h).1
          simp [byteAt, hfile] at hhead
  | some data =>
      have hbytes : (List.range' seg.offset seg.length).map (fs.byteAt ∘ fun k => (seg.path, k)) =
          (List.range' seg.offset seg.length).map fun k => data[k]? := by
        refine List.map_congr_left fun k _ => ?_
        rw [Function.comp_apply, byteAt, hfile, Option.bind_some]
      rw [hbytes, map_getElem?_range', Option.bind_some]
      constructor
      · intro h
        obtain ⟨hle, hfound⟩ := readAt_eq_some hpos h
        exact ⟨.inr hle, hfound⟩
      · rintro ⟨hzero | hle, rfl⟩
        · omega
        · rw [readAt, if_neg (by omega), if_pos hle]

/-- **Reading segments is reading their positions**, when none of them is empty. -/
theorem readSegments_eq_some_iff {fs : FileStore P} {segs : List (Segment P)} {found : Bytes}
    (hpos : ∀ seg ∈ segs, 0 < seg.length) :
    fs.readSegments segs = some found ↔ (segs.flatMap Segment.positions).map fs.byteAt = found.map some := by
  induction segs generalizing found with
  | nil =>
      rw [readSegments, List.flatMap_nil, List.map_nil]
      cases found with
      | nil => simp
      | cons b found => simp
  | cons seg segs ih =>
      have hrest : ∀ rest : Bytes, fs.readSegments segs = some rest ↔
          (segs.flatMap Segment.positions).map fs.byteAt = rest.map some :=
        fun rest => ih fun seg' hmem => hpos seg' (List.mem_cons_of_mem _ hmem)
      rw [readSegments_cons, List.flatMap_cons, List.map_append]
      constructor
      · intro h
        obtain ⟨head, hhead, h⟩ := Option.bind_eq_some_iff.1 h
        obtain ⟨rest, htail, h⟩ := Option.bind_eq_some_iff.1 h
        cases h
        rw [List.map_append, (read_eq_some_iff (hpos seg (List.mem_cons_self ..))).1 hhead, (hrest rest).1 htail]
      · intro h
        obtain ⟨head, rest, rfl, hhead, htail⟩ := List.map_eq_append_iff.1 h.symm
        rw [(read_eq_some_iff (hpos seg (List.mem_cons_self ..))).2 hhead.symm, (hrest rest).2 htail.symm]
        rfl

/-! ### Writing -/

section Write

variable [DecidableEq P]

/-- A byte outside the range that is written stays. -/
theorem byteAt_write_of_outside {fs : FileStore P} {path : P} {offset : ℕ} {block : Bytes} {pos : P × ℕ} {b : UInt8}
    (h : fs.byteAt pos = some b) (hout : ¬(pos.1 = path ∧ offset ≤ pos.2 ∧ pos.2 < offset + block.length)) :
    (fs.write path offset block).byteAt pos = some b := by
  obtain ⟨q, k⟩ := pos
  by_cases hq : q = path
  · subst hq
    obtain ⟨data, hdata, hk, hb⟩ := lt_length_of_byteAt h
    rw [byteAt, write_apply_self, hdata, Option.bind_some, Option.getD_some,
      getElem?_writeAt_of_outside hk (by simp only [true_and] at hout; omega)]
    exact hb
  · rw [byteAt, write_apply_of_ne hq]
    exact h

/-- The bytes of the range that is written are the block. -/
theorem byteAt_write_inside (fs : FileStore P) (path : P) {offset k : ℕ} {block : Bytes} (hk : k < block.length) :
    (fs.write path offset block).byteAt (path, offset + k) = block[k]? := by
  have hne : block ≠ [] := List.length_pos_iff.1 (by omega)
  rw [byteAt, write_apply_self, Option.bind_some, writeAt, if_neg hne]
  generalize (fs path).getD [] = data
  have hlen : (data.take offset ++ List.replicate (offset - data.length) 0).length = offset := by
    rw [List.length_append, List.length_take, List.length_replicate]
    omega
  rw [List.getElem?_append_left (by rw [List.length_append, hlen]; omega),
    List.getElem?_append_right (by omega), hlen, Nat.add_sub_cancel_left]

/-- A block that has the same byte at a position leaves it. -/
theorem byteAt_write_of_agree {fs : FileStore P} {path : P} {offset : ℕ} {block : Bytes} {pos : P × ℕ} {b : UInt8}
    (hb : fs.byteAt pos = some b) (hagree : ∀ k, k < block.length → pos = (path, offset + k) → block[k]? = some b) :
    (fs.write path offset block).byteAt pos = some b := by
  by_cases hin : pos.1 = path ∧ offset ≤ pos.2 ∧ pos.2 < offset + block.length
  · obtain ⟨hpath, hstart, hstop⟩ := hin
    obtain ⟨k, hk⟩ := Nat.exists_eq_add_of_le hstart
    have hpos : pos = (path, offset + k) := Prod.ext hpath hk
    have hlt : k < block.length := by omega
    rw [hpos, byteAt_write_inside fs path hlt]
    exact hagree k hlt hpos
  · exact byteAt_write_of_outside hb hin

/-- A byte that is there after a write was there before, or is one of the block, or is a zero of the gap before it. -/
theorem byteAt_write_cases {fs : FileStore P} {path : P} {offset : ℕ} {block : Bytes} {pos : P × ℕ} {b : UInt8}
    (h : (fs.write path offset block).byteAt pos = some b) :
    fs.byteAt pos = some b ∨ (∃ j < block.length, pos = (path, offset + j)) ∨
      (b = 0 ∧ 0 < block.length ∧ pos.1 = path ∧ pos.2 < offset) := by
  obtain ⟨q, k⟩ := pos
  by_cases hq : q = path
  · subst hq
    rw [byteAt, write_apply_self, Option.bind_some] at h
    by_cases hblock : block = []
    · rw [writeAt, if_pos hblock] at h
      cases hfile : fs q with
      | none => simp [hfile] at h
      | some data => exact .inl (by simpa [byteAt, hfile] using h)
    · have hpos := List.length_pos_iff.2 hblock
      rcases Nat.lt_or_ge k offset with hk | hk
      · rcases Nat.lt_or_ge k ((fs q).getD []).length with hold | hgap
        · rw [getElem?_writeAt_of_outside hold (.inl hk)] at h
          cases hfile : fs q with
          | none => simp [hfile] at h
          | some data => exact .inl (by simpa [byteAt, hfile] using h)
        · refine .inr (.inr ⟨?_, hpos, rfl, hk⟩)
          rw [writeAt, if_neg hblock, List.append_assoc, List.append_assoc,
            List.getElem?_append_right (by rw [List.length_take]; omega), List.getElem?_append_left
              (by rw [List.length_take, List.length_replicate]; omega), List.getElem?_replicate] at h
          split at h
          · exact (Option.some.inj h).symm
          · cases h
      · rcases Nat.lt_or_ge k (offset + block.length) with hin | hout
        · exact .inr (.inl ⟨k - offset, by omega, by rw [Nat.add_sub_cancel' hk]⟩)
        · have hlen := (List.getElem?_eq_some_iff.1 h).1
          rw [length_writeAt hblock] at hlen
          rw [getElem?_writeAt_of_outside (by omega) (.inr hout)] at h
          cases hfile : fs q with
          | none => simp [hfile] at h
          | some data => exact .inl (by simpa [byteAt, hfile] using h)
  · rw [byteAt, write_apply_of_ne hq] at h
    exact .inl h

end Write

end FileStore

/-- Whether the byte of the data with a number is written before the call answers. -/
def WriteEnv.reaches (flush : Bool) : List (Segment P) → WriteEnv → ℕ → Bool
  | [], _, _ => false
  | seg :: segs, env, m =>
      match env 0 with
      | .refused => false
      | .flushed => if m < seg.length then true else reaches flush segs env.tail (m - seg.length)
      | .cut k reported =>
          if m < seg.length then decide (m < k)
          else !(reported || flush) && reaches flush segs env.tail (m - seg.length)

/-- What is written is a byte of the data. -/
theorem WriteEnv.lt_of_reaches {flush : Bool} {segs : List (Segment P)} {env : WriteEnv} {m : ℕ}
    (h : env.reaches flush segs m = true) : m < (segs.map Segment.length).sum := by
  induction segs generalizing env m with
  | nil => cases h
  | cons seg segs ih =>
      rw [List.map_cons, List.sum_cons]
      rcases Nat.lt_or_ge m seg.length with hm | hm
      · omega
      · have htail : env.tail.reaches flush segs (m - seg.length) = true := by
          rw [reaches] at h
          cases henv : env 0 with
          | refused =>
              rw [henv] at h
              cases h
          | flushed =>
              rw [henv] at h
              dsimp only at h
              rwa [if_neg (Nat.not_lt.2 hm)] at h
          | cut k reported =>
              rw [henv] at h
              dsimp only at h
              rw [if_neg (Nat.not_lt.2 hm), Bool.and_eq_true] at h
              exact h.2
        have hlt := ih htail
        omega

namespace FileStore

section Segments

variable [DecidableEq P] {flush : Bool} {fs : FileStore P} {segs : List (Segment P)} {data : Bytes} {env : WriteEnv}

omit [DecidableEq P] in
/-- The number of a byte of the first segment is its number in the segment. -/
theorem getElem?_positions_head {seg : Segment P} {m : ℕ} (hm : m < seg.length) :
    ((seg :: segs).flatMap Segment.positions)[m]? = some (seg.path, seg.offset + m) := by
  rw [List.flatMap_cons, List.getElem?_append_left (by rw [Segment.length_positions]; exact hm), Segment.positions,
    List.getElem?_map, List.getElem?_range' hm, Nat.one_mul]
  rfl

omit [DecidableEq P] in
theorem getElem?_positions_tail {seg : Segment P} {m : ℕ} (hm : seg.length ≤ m) :
    ((seg :: segs).flatMap Segment.positions)[m]? = (segs.flatMap Segment.positions)[m - seg.length]? := by
  rw [List.flatMap_cons, List.getElem?_append_right (by rw [Segment.length_positions]; exact hm),
    Segment.length_positions]

/-- **The rule for a write**: what is kept by writing bytes of the data, each at its position and each one that is
written in time, is kept by the whole write. -/
theorem writeSegments_invariant {I : FileStore P → Prop}
    (hwrite : ∀ (fs : FileStore P) (seg : Segment P) (block : Bytes), seg ∈ segs → block.length ≤ seg.length →
      (∀ j < block.length, ∃ m, (segs.flatMap Segment.positions)[m]? = some (seg.path, seg.offset + j) ∧
        data[m]? = block[j]? ∧ env.reaches flush segs m = true) →
      I fs → I (fs.write seg.path seg.offset block)) (hI : I fs) :
    I (fs.writeSegments flush segs data env).files := by
  induction segs generalizing fs data env with
  | nil => exact hI
  | cons seg segs ih =>
      -- the head of the data goes to the first segment, all of it or a part
      have hhead : ∀ k, (∀ m < k, m < seg.length → env.reaches flush (seg :: segs) m = true) →
          I (fs.write seg.path seg.offset ((data.take seg.length).take k)) := by
        intro k hreach
        refine hwrite fs seg _ (List.mem_cons_self ..) ?_ (fun j hj => ?_) hI
        · rw [List.length_take, List.length_take]
          omega
        · rw [List.length_take, List.length_take] at hj
          refine ⟨j, getElem?_positions_head (by omega), ?_, hreach j (by omega) (by omega)⟩
          rw [List.getElem?_take, if_pos (by omega), List.getElem?_take, if_pos (by omega)]
      have hrest : (∀ m, seg.length ≤ m → env.reaches flush (seg :: segs) m =
            env.tail.reaches flush segs (m - seg.length)) →
          ∀ {fs' : FileStore P}, I fs' → I (fs'.writeSegments flush segs (data.drop seg.length) env.tail).files := by
        intro htail fs' hI'
        refine ih (fun fs'' seg' block hseg' hlen hbytes => ?_) hI'
        refine hwrite fs'' seg' block (List.mem_cons_of_mem _ hseg') hlen fun j hj => ?_
        obtain ⟨m, hpos, hbyte, hreach⟩ := hbytes j hj
        refine ⟨seg.length + m, ?_, ?_, ?_⟩
        · rw [getElem?_positions_tail (Nat.le_add_right _ _), Nat.add_sub_cancel_left]
          exact hpos
        · rw [← hbyte, List.getElem?_drop]
        · rw [htail _ (Nat.le_add_right _ _), Nat.add_sub_cancel_left]
          exact hreach
      rw [writeSegments]
      cases henv : env 0 with
      | refused => exact hI
      | flushed =>
          refine hrest (fun m hm => ?_) ?_
          · rw [WriteEnv.reaches, henv]
            exact if_neg (Nat.not_lt.2 hm)
          · have hall := hhead seg.length fun m _ hm => by
              rw [WriteEnv.reaches, henv]
              exact if_pos hm
            rwa [List.take_take, Nat.min_self] at hall
      | cut k reported =>
          have hpart := hhead k fun m hk hm => by
            rw [WriteEnv.reaches, henv]
            dsimp only
            rw [if_pos hm, decide_eq_true hk]
          dsimp only
          split
          · exact hpart
          · rename_i hgoes
            rw [WriteResult.leave_files]
            refine hrest (fun m hm => ?_) hpart
            rw [WriteEnv.reaches, henv]
            dsimp only
            rw [if_neg (Nat.not_lt.2 hm), Bool.eq_false_iff.2 hgoes, Bool.not_false, Bool.true_and]

/-- **A write leaves alone what it agrees with**, whether it is cut short or not. -/
theorem byteAt_writeSegments_of_agree {pos : P × ℕ} {b : UInt8} (h : fs.byteAt pos = some b)
    (hagree : ∀ (m : ℕ) (d : UInt8), (segs.flatMap Segment.positions)[m]? = some pos → data[m]? = some d →
      env.reaches flush segs m = true → d = b) :
    (fs.writeSegments flush segs data env).files.byteAt pos = some b := by
  refine writeSegments_invariant (I := fun fs' => fs'.byteAt pos = some b) ?_ h
  intro fs' seg block _ _ hbytes hI
  refine byteAt_write_of_agree hI fun j hj hpos => ?_
  obtain ⟨m, hm, hdata, hreach⟩ := hbytes j hj
  rw [← hpos] at hm
  have hbyte : block[j]? = some block[j] := List.getElem?_eq_getElem hj
  rw [hbyte, hagree m _ hm (hdata.trans hbyte) hreach]

/-- A byte stays at a position to which nothing is written in time. -/
theorem byteAt_writeSegments_of_not_reaches {pos : P × ℕ} {b : UInt8} (h : fs.byteAt pos = some b)
    (hout : ∀ m, (segs.flatMap Segment.positions)[m]? = some pos → env.reaches flush segs m = false) :
    (fs.writeSegments flush segs data env).files.byteAt pos = some b := by
  refine byteAt_writeSegments_of_agree h fun m d hm _ hreach => ?_
  cases (hout m hm).symm.trans hreach

/-- **The frame rule for bytes**: a byte at no position of the segments stays, whether the write was cut short or
not. -/
theorem byteAt_writeSegments_of_not_mem {pos : P × ℕ} {b : UInt8} (h : fs.byteAt pos = some b)
    (hout : pos ∉ segs.flatMap Segment.positions) (flush : Bool) (data : Bytes) (env : WriteEnv) :
    (fs.writeSegments flush segs data env).files.byteAt pos = some b :=
  byteAt_writeSegments_of_not_reaches h fun _ hm => absurd (List.mem_of_getElem? hm) hout

/-- **What has been written is there**, when no position is written twice. -/
theorem byteAt_writeSegments_of_reaches (hlen : data.length = (segs.map Segment.length).sum)
    (hnodup : (segs.flatMap Segment.positions).Nodup) {m : ℕ} {pos : P × ℕ}
    (hpos : (segs.flatMap Segment.positions)[m]? = some pos) (hreach : env.reaches flush segs m = true) :
    (fs.writeSegments flush segs data env).files.byteAt pos = data[m]? := by
  induction segs generalizing fs data env m with
  | nil => cases hpos
  | cons seg segs ih =>
      rw [List.flatMap_cons, List.nodup_append] at hnodup
      obtain ⟨-, hrest, hdisjoint⟩ := hnodup
      rw [List.map_cons, List.sum_cons] at hlen
      have hlen' : (data.drop seg.length).length = (segs.map Segment.length).sum := by
        rw [List.length_drop]
        omega
      rcases Nat.lt_or_ge m seg.length with hm | hm
      · rw [getElem?_positions_head hm] at hpos
        obtain rfl := Option.some.inj hpos
        have hdata : data[m]? = some data[m] := List.getElem?_eq_getElem (by omega)
        -- the byte is in the part that is written, and the rest of the data goes elsewhere
        have hhead : ∀ k, m < k → (fs.write seg.path seg.offset ((data.take seg.length).take k)).byteAt
            (seg.path, seg.offset + m) = some data[m] := by
          intro k hk
          rw [byteAt_write_inside fs seg.path (by rw [List.length_take, List.length_take]; omega),
            List.getElem?_take, if_pos hk, List.getElem?_take, if_pos hm, hdata]
        have hkept : ∀ {fs' : FileStore P} (env' : WriteEnv),
            fs'.byteAt (seg.path, seg.offset + m) = some data[m] →
            (fs'.writeSegments flush segs (data.drop seg.length) env').files.byteAt (seg.path, seg.offset + m) =
              some data[m] := by
          intro fs' env' hbyte
          refine byteAt_writeSegments_of_not_mem hbyte (fun hmem => ?_) _ _ _
          have hthere : (seg.path, seg.offset + m) ∈ seg.positions :=
            List.mem_map.2 ⟨_, List.mem_range'_1.2 ⟨Nat.le_add_right _ _, by omega⟩, rfl⟩
          exact hdisjoint _ hthere _ hmem rfl
        rw [WriteEnv.reaches] at hreach
        rw [writeSegments, hdata]
        cases henv : env 0 with
        | refused =>
            rw [henv] at hreach
            cases hreach
        | flushed =>
            have hall := hhead seg.length hm
            rw [List.take_take, Nat.min_self] at hall
            exact hkept _ hall
        | cut k reported =>
            rw [henv] at hreach
            dsimp only at hreach ⊢
            rw [if_pos hm] at hreach
            have hpart := hhead k (of_decide_eq_true hreach)
            split
            · exact hpart
            · rw [WriteResult.leave_files]
              exact hkept _ hpart
      · rw [getElem?_positions_tail hm] at hpos
        have hdata : data[m]? = (data.drop seg.length)[m - seg.length]? := by
          rw [List.getElem?_drop, Nat.add_sub_cancel' hm]
        rw [WriteEnv.reaches] at hreach
        rw [writeSegments, hdata]
        cases henv : env 0 with
        | refused =>
            rw [henv] at hreach
            cases hreach
        | flushed =>
            rw [henv] at hreach
            dsimp only at hreach
            rw [if_neg (Nat.not_lt.2 hm)] at hreach
            exact ih hlen' hrest hpos hreach
        | cut k reported =>
            rw [henv] at hreach
            dsimp only at hreach ⊢
            rw [if_neg (Nat.not_lt.2 hm), Bool.and_eq_true, Bool.not_eq_true'] at hreach
            rw [if_neg (Bool.eq_false_iff.1 hreach.1), WriteResult.leave_files]
            exact ih hlen' hrest hpos hreach.2

/-- A byte that is there after a write was there before, or has been written, or is a zero before one that has been
written to the same file. -/
theorem byteAt_writeSegments_cases {pos : P × ℕ} {b : UInt8}
    (h : (fs.writeSegments flush segs data env).files.byteAt pos = some b) :
    fs.byteAt pos = some b ∨
      (∃ m, (segs.flatMap Segment.positions)[m]? = some pos ∧ env.reaches flush segs m = true) ∨
      (b = 0 ∧ ∃ m o, (segs.flatMap Segment.positions)[m]? = some (pos.1, o) ∧ pos.2 < o ∧
        env.reaches flush segs m = true) := by
  refine @writeSegments_invariant P _ flush fs segs data env (fun fs' => fs'.byteAt pos = some b →
    fs.byteAt pos = some b ∨ (∃ m, (segs.flatMap Segment.positions)[m]? = some pos ∧ env.reaches flush segs m = true) ∨
      (b = 0 ∧ ∃ m o, (segs.flatMap Segment.positions)[m]? = some (pos.1, o) ∧ pos.2 < o ∧
        env.reaches flush segs m = true)) ?_ .inl h
  intro fs' seg block _ _ hbytes hI hb
  rcases byteAt_write_cases hb with hold | ⟨j, hj, hpos⟩ | ⟨hzero, hblock, hpath, hlt⟩
  · exact hI hold
  · obtain ⟨m, hm, -, hreach⟩ := hbytes j hj
    exact .inr (.inl ⟨m, hpos ▸ hm, hreach⟩)
  · obtain ⟨m, hm, -, hreach⟩ := hbytes 0 hblock
    refine .inr (.inr ⟨hzero, m, seg.offset + 0, ?_, by omega, hreach⟩)
    rw [hm, hpath]

/-- What is left to be written are bytes of the data, each for its position. -/
theorem positions_of_mem_late {w : LateWrite P} (h : w ∈ (fs.writeSegments flush segs data env).late) {k : ℕ}
    (hk : k < w.bytes.length) :
    ∃ m : ℕ, (segs.flatMap Segment.positions)[m]? = some (w.path, w.offset + k) ∧ data[m]? = w.bytes[k]? := by
  induction segs generalizing fs data env with
  | nil => cases h
  | cons seg segs ih =>
      have hrest : ∀ {fs' : FileStore P},
          w ∈ (fs'.writeSegments flush segs (data.drop seg.length) env.tail).late →
          ∃ m : ℕ, ((seg :: segs).flatMap Segment.positions)[m]? = some (w.path, w.offset + k) ∧
            data[m]? = w.bytes[k]? := by
        intro fs' hmem
        obtain ⟨m, hpos, hbyte⟩ := ih hmem
        refine ⟨seg.length + m, ?_, ?_⟩
        · rw [getElem?_positions_tail (Nat.le_add_right _ _), Nat.add_sub_cancel_left]
          exact hpos
        · rw [← hbyte, List.getElem?_drop]
      rw [writeSegments] at h
      cases henv : env 0 with
      | refused =>
          rw [henv] at h
          cases h
      | flushed =>
          rw [henv] at h
          exact hrest h
      | cut n reported =>
          rw [henv] at h
          dsimp only at h
          split at h
          · cases h
          · rcases WriteResult.mem_leave h with rfl | hmem
            · -- the rest of the head
              dsimp only at hk ⊢
              rw [List.length_drop, List.length_take] at hk
              refine ⟨n + k, ?_, ?_⟩
              · rw [getElem?_positions_head (by omega), Nat.add_assoc]
              · rw [List.getElem?_drop, List.getElem?_take, if_pos (by omega)]
            · exact hrest hmem

/-- **A write that succeeds writes every byte in time, or leaves it to be written.** -/
theorem reaches_or_late_of_ok (hok : (fs.writeSegments flush segs data env).ok = true)
    (hlen : data.length = (segs.map Segment.length).sum) {m : ℕ} (hm : m < data.length) :
    env.reaches flush segs m = true ∨ ∃ w ∈ (fs.writeSegments flush segs data env).late, ∃ k,
      (segs.flatMap Segment.positions)[m]? = some (w.path, w.offset + k) ∧ w.bytes[k]? = data[m]? := by
  induction segs generalizing fs data env m with
  | nil =>
      rw [List.map_nil, List.sum_nil] at hlen
      omega
  | cons seg segs ih =>
      rw [List.map_cons, List.sum_cons] at hlen
      have hlen' : (data.drop seg.length).length = (segs.map Segment.length).sum := by
        rw [List.length_drop]
        omega
      have hrest : ∀ {fs' : FileStore P}, seg.length ≤ m →
          (fs'.writeSegments flush segs (data.drop seg.length) env.tail).ok = true →
          env.tail.reaches flush segs (m - seg.length) = true ∨
            ∃ w ∈ (fs'.writeSegments flush segs (data.drop seg.length) env.tail).late, ∃ k,
              ((seg :: segs).flatMap Segment.positions)[m]? = some (w.path, w.offset + k) ∧
                w.bytes[k]? = data[m]? := by
        intro fs' hle hok'
        have hlt : m - seg.length < (data.drop seg.length).length := by
          rw [List.length_drop]
          omega
        rcases ih hok' hlen' hlt with hreach | ⟨w, hw, k, hpos, hbyte⟩
        · exact .inl hreach
        · refine .inr ⟨w, hw, k, (getElem?_positions_tail hle).trans hpos, ?_⟩
          rw [hbyte, List.getElem?_drop, Nat.add_sub_cancel' hle]
      rw [writeSegments] at hok ⊢
      rw [WriteEnv.reaches]
      cases henv : env 0 with
      | refused =>
          rw [henv] at hok
          cases hok
      | flushed =>
          rw [henv] at hok
          dsimp only at hok ⊢
          split
          · exact .inl rfl
          · rename_i hge
            exact hrest (Nat.not_lt.1 hge) hok
      | cut n reported =>
          rw [henv] at hok
          dsimp only at hok ⊢
          split at hok
          · cases hok
          · rename_i hgoes
            rw [WriteResult.leave_ok] at hok
            rw [if_neg hgoes, Bool.eq_false_iff.2 hgoes, Bool.not_false, Bool.true_and]
            by_cases hhead : m < seg.length
            · rw [if_pos hhead]
              by_cases hn : m < n
              · exact .inl (decide_eq_true hn)
              · -- the byte is in the rest of the head
                have hk : m - n < ((data.take seg.length).drop n).length := by
                  rw [List.length_drop, List.length_take]
                  omega
                refine .inr ⟨_, WriteResult.rest_mem_leave (List.length_pos_iff.1 (Nat.zero_lt_of_lt hk)), m - n, ?_, ?_⟩
                · rw [getElem?_positions_head hhead, Nat.add_assoc, Nat.add_sub_cancel' (Nat.not_lt.1 hn)]
                · rw [List.getElem?_drop, Nat.add_sub_cancel' (Nat.not_lt.1 hn), List.getElem?_take, if_pos hhead]
            · rw [if_neg hhead]
              rcases hrest (Nat.not_lt.1 hhead) hok with hreach | ⟨w, hw, hbyte⟩
              · exact .inl hreach
              · exact .inr ⟨w, WriteResult.mem_leave_of_mem hw, hbyte⟩

/-- A write that succeeds and leaves nothing to be written reaches every byte. -/
theorem reaches_of_ok (hok : (fs.writeSegments flush segs data env).ok = true)
    (hlate : (fs.writeSegments flush segs data env).late = [])
    (hlen : data.length = (segs.map Segment.length).sum) {m : ℕ} (hm : m < data.length) :
    env.reaches flush segs m = true := by
  rcases reaches_or_late_of_ok hok hlen hm with hreach | ⟨w, hw, -⟩
  · exact hreach
  · rw [hlate] at hw
    cases hw

end Segments

end FileStore

end Tortillas
