/-
**How many bytes a torrent has.**

What is counted as downloaded is put together of two sums, one over the bits of complete pieces and one over the
rows of received blocks.  Each piece enters only one of them: with its whole length if its bit is set, and
otherwise with the blocks of its row, if it has one.  So the count is a sum over the pieces, of which no summand
is more than the length of its piece, and the lengths of all pieces add up to the total length.

Main definitions:

* `TorrentActor.receivedBytes` — the bytes of a piece that have been received;
* `TorrentActor.downloadedBytes` — those of all pieces.

Main results:

* `blocksLength_set`, `blocksLength_eq_iff` — a block adds its length to its row, and when a row has all of its
  piece;
* `HashMap.weight_eq_sum` — the weight of a map with numbers for keys;
* `Info.sum_pieceLen` — the lengths of the pieces add up;
* `TorrentActor.totalBytesDownloaded_eq_downloadedBytes`, `TorrentActor.downloadedBytes_eq_iff` — **what is counted
  as downloaded, and when it is everything**;
* `TorrentActor.totalVerifiedBytes_eq_sum` — **what is counted as verified**.
-/

import Tortillas.PieceLengths
import Tortillas.OpenPieces
import Mathlib.Algebra.BigOperators.Group.Finset.Basic
import Mathlib.Algebra.Order.BigOperators.Group.Finset

set_option relaxedAutoImplicit false
set_option autoImplicit false

namespace Tortillas

variable {H : Type}

/-! ### The bytes of a row -/

section Rows

variable (size : ℕ)

theorem blocksLength_le (j : ℕ) (blocks : List Bool) : blocksLength size j blocks ≤ size - j * blockSize := by
  induction blocks generalizing j with
  | nil => exact Nat.zero_le _
  | cons block blocks ih =>
      have hrest := ih (j + 1)
      rw [blocksLength]
      rw [Nat.succ_mul] at hrest
      split
      · omega
      · omega

@[simp] theorem blocksLength_replicate (j n : ℕ) : blocksLength size j (List.replicate n false) = 0 := by
  induction n generalizing j with
  | zero => rfl
  | succ n ih =>
      rw [List.replicate_succ, blocksLength, ih]
      rfl

/-- **A block adds its length to its row.** -/
theorem blocksLength_set (j : ℕ) {k : ℕ} {blocks : List Bool} (hk : k < blocks.length)
    (hfresh : blocks.getD k false = false) :
    blocksLength size j (blocks.set k true) =
      blocksLength size j blocks + min (size - (j + k) * blockSize) blockSize := by
  induction blocks generalizing j k with
  | nil => cases hk
  | cons block blocks ih =>
      cases k with
      | zero =>
          have hblock : block = false := hfresh
          rw [List.set_cons_zero, blocksLength, blocksLength, hblock, if_pos rfl, if_neg Bool.false_ne_true,
            Nat.zero_add, Nat.add_comm]
          rfl
      | succ k =>
          have hrest := ih (j + 1) (Nat.lt_of_succ_lt_succ hk) hfresh
          rw [List.set_cons_succ, blocksLength, blocksLength, hrest, Nat.add_assoc j 1 k, Nat.add_comm 1 k,
            Nat.add_assoc]

/-- **A row has all of its piece when all of the blocks have been received.** -/
theorem blocksLength_eq_iff (j : ℕ) (blocks : List Bool) :
    blocksLength size j blocks = size - j * blockSize ↔
      ∀ k, (j + k) * blockSize < size → blocks.getD k false = true := by
  have hpos := blockSize_pos
  induction blocks generalizing j with
  | nil =>
      rw [blocksLength]
      constructor
      · intro heq k hk
        have hle : j * blockSize ≤ (j + k) * blockSize := Nat.mul_le_mul_right _ (Nat.le_add_right j k)
        omega
      · intro hall
        by_contra hne
        cases hall 0 (by rw [Nat.add_zero]; omega)
  | cons block blocks ih =>
      have hrest := blocksLength_le size (j + 1) blocks
      have hiff := ih (j + 1)
      rw [blocksLength]
      rw [Nat.succ_mul] at hrest hiff
      constructor
      · intro heq k hk
        cases k with
        | zero =>
            cases block with
            | true => rfl
            | false =>
                rw [if_neg Bool.false_ne_true] at heq
                rw [Nat.add_zero] at hk
                omega
        | succ k =>
            refine hiff.1 ?_ k (by rwa [Nat.add_assoc, Nat.add_comm 1 k])
            split at heq
            · omega
            · omega
      · intro hall
        have hblocks : blocksLength size (j + 1) blocks = size - (j * blockSize + blockSize) := by
          refine hiff.2 fun k hk => ?_
          refine hall (k + 1) ?_
          rwa [Nat.add_comm k 1, ← Nat.add_assoc]
        rw [hblocks]
        rcases Nat.lt_or_ge (j * blockSize) size with hlt | hge
        · have hblock : block = true := hall 0 (by rwa [Nat.add_zero])
          rw [if_pos hblock]
          omega
        · split
          · omega
          · omega

end Rows

/-! ### Sums -/

/-- The weight of a map whose keys are numbers, as a sum over the numbers. -/
theorem HashMap.weight_eq_sum {V : Type} {w : ℕ → V → ℕ} {n : ℕ} {m : HashMap ℕ V}
    (h : ∀ k v, m.get? k = some v → n ≤ k → w k v = 0) :
    weight w m = ∑ k ∈ Finset.range n, ((m.get? k).map (w k)).getD 0 := by
  induction n generalizing m with
  | zero =>
      rw [Finset.range_zero, Finset.sum_empty, weight_eq_zero_iff]
      exact fun k v hk => h k v hk (Nat.zero_le k)
  | succ n ih =>
      have hrest : weight w (m.erase n) = ∑ k ∈ Finset.range n, (((m.erase n).get? k).map (w k)).getD 0 := by
        refine ih fun k v hk hle => ?_
        obtain ⟨hne, hold⟩ := get?_of_get?_erase hk
        exact h k v hold (by omega)
      rw [← weight_erase w m n, hrest, Finset.sum_range_succ]
      congr 1
      refine Finset.sum_congr rfl fun k hk => ?_
      rw [get?_erase_of_ne (Finset.mem_range.1 hk).ne]

/-- A sum over the elements of a range that are selected. -/
theorem sum_selected (p : ℕ → Bool) (f : ℕ → ℕ) (n : ℕ) :
    (((List.range n).filter p).map f).sum = ∑ i ∈ Finset.range n, if p i then f i else 0 := by
  induction n with
  | zero => rfl
  | succ n ih =>
      have hlast : (([n].filter p).map f).sum = if p n then f n else 0 := by
        cases hp : p n with
        | true => simp [hp]
        | false => simp [hp]
      rw [List.range_succ, List.filter_append, List.map_append, List.sum_append, hlast, ih,
        Finset.sum_range_succ]

/-- Two sums of which only one summand differs. -/
theorem sum_add_of_eq {f g : ℕ → ℕ} {n index : ℕ} (hindex : index < n) (h : ∀ i, i ≠ index → f i = g i) :
    ∑ i ∈ Finset.range n, f i + g index = ∑ i ∈ Finset.range n, g i + f index := by
  have hmem : index ∈ Finset.range n := Finset.mem_range.2 hindex
  have hrest : ∑ i ∈ (Finset.range n).erase index, f i = ∑ i ∈ (Finset.range n).erase index, g i :=
    Finset.sum_congr rfl fun i hi => h i (Finset.ne_of_mem_erase hi)
  rw [← Finset.add_sum_erase _ f hmem, ← Finset.add_sum_erase _ g hmem, hrest]
  omega

/-- **The lengths of the pieces add up to the total length.** -/
theorem Info.sum_pieceLen {info : Info H} (hinfo : info.Consistent) :
    ∑ i ∈ Finset.range info.pieceCount, info.pieceLen i = info.totalLength := by
  have hpieces := sum_selected (fun _ => true) info.pieceLen info.pieceCount
  rw [List.filter_true, hinfo.sum_pieceLen] at hpieces
  simp only [if_true] at hpieces
  exact hpieces.symm

namespace TorrentActor

variable {s t : TorrentActor H} {info : Info H}

/-! ### The bytes of a piece -/

/-- The bytes of a piece that have been received. -/
def receivedBytes (s : TorrentActor H) (info : Info H) (index : ℕ) : ℕ :=
  if s.bitfield.getD index false then info.pieceLen index
  else ((s.pieceScheduler.completedBlocks.get? index).map (blocksLength (info.pieceLen index) 0)).getD 0

/-- Those of all pieces. -/
def downloadedBytes (s : TorrentActor H) (info : Info H) : ℕ :=
  ∑ index ∈ Finset.range info.pieceCount, s.receivedBytes info index

theorem receivedBytes_of_complete {index : ℕ} (h : s.bitfield.getD index false = true) :
    s.receivedBytes info index = info.pieceLen index := by
  rw [receivedBytes, if_pos h]

theorem receivedBytes_of_incomplete {index : ℕ} (h : s.bitfield.getD index false = false) :
    s.receivedBytes info index =
      ((s.pieceScheduler.completedBlocks.get? index).map (blocksLength (info.pieceLen index) 0)).getD 0 := by
  rw [receivedBytes, if_neg (by rw [h]; exact Bool.false_ne_true)]

/-- A piece without a row has nothing, or all. -/
theorem receivedBytes_of_noRow {index : ℕ} (h : s.bitfield.getD index false = false)
    (hrow : s.pieceScheduler.completedBlocks.get? index = none) : s.receivedBytes info index = 0 := by
  rw [receivedBytes_of_incomplete h, hrow]
  rfl

theorem receivedBytes_of_row {index : ℕ} {row : List Bool} (h : s.bitfield.getD index false = false)
    (hrow : s.pieceScheduler.completedBlocks.get? index = some row) :
    s.receivedBytes info index = blocksLength (info.pieceLen index) 0 row := by
  rw [receivedBytes_of_incomplete h, hrow]
  rfl

theorem receivedBytes_le (s : TorrentActor H) (info : Info H) (index : ℕ) :
    s.receivedBytes info index ≤ info.pieceLen index := by
  cases hbit : s.bitfield.getD index false with
  | true => rw [receivedBytes_of_complete hbit]
  | false =>
      cases hrow : s.pieceScheduler.completedBlocks.get? index with
      | none =>
          rw [receivedBytes_of_noRow hbit hrow]
          exact Nat.zero_le _
      | some row =>
          rw [receivedBytes_of_row hbit hrow]
          have hle := blocksLength_le (info.pieceLen index) 0 row
          omega

/-- **When all of a piece is there.** -/
theorem receivedBytes_eq_iff (hpos : 0 < info.pieceLength.toNat) (index : ℕ) :
    s.receivedBytes info index = info.pieceLen index ↔
      s.bitfield.getD index false = true ∨
        ∀ j, j * blockSize < info.pieceLen index → s.pieceScheduler.isDuplicateBlock index j = true := by
  have hlen := Info.pieceLen_pos hpos index
  cases hbit : s.bitfield.getD index false with
  | true => exact iff_of_true (receivedBytes_of_complete hbit) (.inl rfl)
  | false =>
      rw [or_iff_right Bool.false_ne_true]
      cases hrow : s.pieceScheduler.completedBlocks.get? index with
      | none =>
          rw [receivedBytes_of_noRow hbit hrow]
          refine iff_of_false hlen.ne fun hall => ?_
          have hfirst := hall 0 (by omega)
          cases (isDuplicateBlock_of_none hrow 0).symm.trans hfirst
      | some row =>
          have hiff := blocksLength_eq_iff (info.pieceLen index) 0 row
          simp only [Nat.zero_mul, Nat.sub_zero, Nat.zero_add] at hiff
          rw [receivedBytes_of_row hbit hrow, hiff]
          refine forall_congr' fun j => imp_congr_right fun _ => ?_
          rw [isDuplicateBlock_of_get? hrow]

/-! ### The bytes of all pieces -/

/-- **The two sums are one sum over the pieces.** -/
theorem verified_add_rowsLength (hfits : s.bitfield.length = info.pieceCount) :
    (s.completeIndices.map info.pieceLen).sum +
        s.rowsLength info.pieceLen s.pieceScheduler.completedBlocks.toList = s.downloadedBytes info := by
  have hrows : s.rowsLength info.pieceLen s.pieceScheduler.completedBlocks.toList =
      HashMap.weight (fun i row => if i < s.bitfield.length ∧ s.bitfield.getD i false = false then
        blocksLength (info.pieceLen i) 0 row else 0) s.pieceScheduler.completedBlocks := by
    rw [rowsLength, HashMap.weight, HashMap.toList, List.map_map]
    rfl
  have hweight := HashMap.weight_eq_sum (n := info.pieceCount) (m := s.pieceScheduler.completedBlocks)
    (w := fun i row => if i < s.bitfield.length ∧ s.bitfield.getD i false = false then
      blocksLength (info.pieceLen i) 0 row else 0) (fun i row _ hle => if_neg (by omega))
  rw [hrows, hweight, completeIndices, sum_selected, hfits, downloadedBytes, ← Finset.sum_add_distrib]
  refine Finset.sum_congr rfl fun i hi => ?_
  have hlt := Finset.mem_range.1 hi
  rw [receivedBytes]
  cases hbit : s.bitfield.getD i false with
  | true =>
      cases s.pieceScheduler.completedBlocks.get? i with
      | none => simp
      | some row => simp
  | false =>
      cases s.pieceScheduler.completedBlocks.get? i with
      | none => simp
      | some row => simp [hlt]

theorem downloadedBytes_le (hinfo : info.Consistent) (s : TorrentActor H) :
    s.downloadedBytes info ≤ info.totalLength := by
  rw [← Info.sum_pieceLen hinfo]
  exact Finset.sum_le_sum fun i _ => s.receivedBytes_le info i

/-- **Everything is downloaded when all of every piece is there.** -/
theorem downloadedBytes_eq_iff (hinfo : info.Consistent) :
    s.downloadedBytes info = info.totalLength ↔ ∀ index < info.pieceCount,
      s.bitfield.getD index false = true ∨
        ∀ j, j * blockSize < info.pieceLen index → s.pieceScheduler.isDuplicateBlock index j = true := by
  rw [← Info.sum_pieceLen hinfo, downloadedBytes, Finset.sum_eq_sum_iff_of_le fun i _ => s.receivedBytes_le info i]
  refine forall_congr' fun i => ?_
  rw [Finset.mem_range, receivedBytes_eq_iff hinfo.pos]

/-- **What is counted as downloaded**: no subtraction fails, and nothing is cut off. -/
theorem totalBytesDownloaded_eq_downloadedBytes (hdict : s.infoDict = some info) (hinfo : info.Consistent)
    (hfits : s.bitfield.length = info.pieceCount) :
    s.totalBytesDownloaded = .ok (some (s.downloadedBytes info)) := by
  have hsize : s.pieceSize info = info.pieceLen := by
    funext index
    rw [pieceSize, hfits, Info.pieceLen]
  have hle := (s.downloadedBytes_le hinfo).trans info.totalLength_le
  rw [totalBytesDownloaded_eq hdict hinfo.pos, hsize, verified_add_rowsLength hfits, Nat.min_eq_left hle]

/-- The progress that trackers are told. -/
theorem trackerAnnounceProgress_eq (hdict : s.infoDict = some info) (hinfo : info.Consistent)
    (hfits : s.bitfield.length = info.pieceCount) :
    s.trackerAnnounceProgress =
      .ok (some (s.downloadedBytes info, info.totalLength - s.downloadedBytes info)) := by
  have hle := s.downloadedBytes_le hinfo
  rw [trackerAnnounceProgress, hdict]
  dsimp only
  rw [totalBytesDownloaded_eq_downloadedBytes hdict hinfo hfits, Outcome.ok_bind, Option.map_some,
    Nat.min_eq_left hle]

/-- The complete pieces are no longer than all pieces, and as long when all are complete. -/
theorem sum_completeIndices (hinfo : info.Consistent) (hfits : s.bitfield.length = info.pieceCount) :
    (s.completeIndices.map info.pieceLen).sum ≤ info.totalLength ∧
      ((s.completeIndices.map info.pieceLen).sum = info.totalLength ↔
        ∀ index < info.pieceCount, s.bitfield.getD index false = true) := by
  have hle : ∀ i ∈ Finset.range info.pieceCount,
      (if s.bitfield.getD i false = true then info.pieceLen i else 0) ≤ info.pieceLen i := by
    intro i _
    split
    · exact le_rfl
    · exact Nat.zero_le _
  rw [completeIndices, sum_selected, hfits, ← Info.sum_pieceLen hinfo]
  refine ⟨Finset.sum_le_sum hle, ?_⟩
  rw [Finset.sum_eq_sum_iff_of_le hle]
  refine forall_congr' fun i => ?_
  rw [Finset.mem_range]
  refine imp_congr_right fun hi => ?_
  have hpos := Info.pieceLen_pos hinfo.pos i
  cases s.bitfield.getD i false with
  | true => simp
  | false => simpa using hpos.ne

/-- **What is counted as verified.** -/
theorem totalVerifiedBytes_eq_sum (hdict : s.infoDict = some info) (hinfo : info.Consistent)
    (hfits : s.bitfield.length = info.pieceCount) :
    s.totalVerifiedBytes = some (s.completeIndices.map info.pieceLen).sum := by
  rw [totalVerifiedBytes_eq hdict hinfo hfits, Nat.min_eq_left (sum_completeIndices hinfo hfits).1]

end TorrentActor

end Tortillas
