/-
**Files laid out one behind the other, and cut into pieces.**

The bytes of several files form one sequence, in the order of the files.  Cutting it at multiples of
a length makes pieces whose boundaries have nothing to do with those of the files: a piece may begin
in the middle of a file, span many files and meet empty ones.  A walk over the files finds the parts
of a piece: it skips the files in front of the piece and takes from the others what is still missing.

A piece is in turn cut into blocks, which arrive in any order.  They cover it when each of them is
there once.

Main definitions:

* `Segment.positions` — the bytes of a segment, by file and offset;
* `layout` — the bytes of all files, in order;
* `spans` — the walk over the files;
* `CoversOnce` — parts that cover a range with neither gap nor overlap;
* `blockPart` — the part that a block has of a range.

Main results:

* `positions_spans` — **the walk finds the bytes of the piece, in order**;
* `spans_inside` — every part lies inside its file;
* `coversOnce_of_count` — **blocks that are each there once cover a range once**.
-/

import Tortillas.ByteStore
import Tortillas.Chunks

set_option relaxedAutoImplicit false
set_option autoImplicit false

namespace Tortillas

variable {P Q : Type}

namespace Segment

/-- The bytes of a segment, by file and offset. -/
def positions (seg : Segment P) : List (P × ℕ) :=
  (List.range' seg.offset seg.length).map fun k => (seg.path, k)

@[simp] theorem length_positions (seg : Segment P) : seg.positions.length = seg.length := by
  simp [positions]

/-- A segment under another name of its file. -/
def rename (f : P → Q) (seg : Segment P) : Segment Q := ⟨f seg.path, seg.offset, seg.length⟩

end Segment

/-- The number of bytes of several segments. -/
theorem length_flatMap_positions (segs : List (Segment P)) :
    (segs.flatMap Segment.positions).length = (segs.map Segment.length).sum := by
  induction segs with
  | nil => rfl
  | cons seg segs ih => simp [ih]

/-- The bytes of all files, in order; the first file has the given number. -/
def layout : ℕ → List ℕ → List (ℕ × ℕ)
  | _, [] => []
  | j, n :: ns => (List.range n).map (fun k => (j, k)) ++ layout (j + 1) ns

@[simp] theorem length_layout (j : ℕ) (ns : List ℕ) : (layout j ns).length = ns.sum := by
  induction ns generalizing j with
  | nil => rfl
  | cons n ns ih => simp [layout, ih]

/-- The walk over the files: the parts of the bytes from `start` on, `remaining` of them; `acc` is
where the first file starts. -/
def spans (start : ℕ) : ℕ → List ℕ → ℕ → ℕ → List (Segment ℕ)
  | _, [], _, _ => []
  | j, n :: ns, remaining, acc =>
      if acc + n ≤ start then spans start (j + 1) ns remaining (acc + n)
      else
        let offset := start - acc
        let taken := min remaining (n - offset)
        if remaining - taken = 0 then [⟨j, offset, taken⟩]
        else ⟨j, offset, taken⟩ :: spans start (j + 1) ns (remaining - taken) (acc + n)

/-- The bytes of a part of a file. -/
theorem positions_eq_take_drop {j n offset taken : ℕ} (h : offset + taken ≤ n) :
    (⟨j, offset, taken⟩ : Segment ℕ).positions =
      (((List.range n).map fun k => (j, k)).drop offset).take taken := by
  rw [Segment.positions, ← List.map_drop, ← List.map_take, List.range_eq_range']
  congr 1
  refine List.ext_getElem? fun k => ?_
  simp only [List.getElem?_take, List.getElem?_drop]
  by_cases hk : k < taken
  · rw [if_pos hk, List.getElem?_range' hk, List.getElem?_range' (by omega)]
    simp
  · rw [if_neg hk, List.getElem?_eq_none (by simp; omega)]

/-- **The walk finds the bytes of the piece, in order.** -/
theorem positions_spans (start j : ℕ) (ns : List ℕ) (remaining acc : ℕ) :
    (spans start j ns remaining acc).flatMap Segment.positions =
      ((layout j ns).drop (start - acc)).take remaining := by
  induction ns generalizing j remaining acc with
  | nil => simp [spans, layout]
  | cons n ns ih =>
      rw [spans, layout]
      split
      · rename_i hskip
        -- the file lies in front of the piece
        have hnil : ((List.range n).map fun k => (j, k)).drop (start - acc) = [] :=
          List.drop_of_length_le (by rw [List.length_map, List.length_range]; omega)
        rw [ih, List.drop_append, hnil, List.nil_append, List.length_map, List.length_range,
          Nat.sub_sub]
      · rename_i htake
        have hlen : (((List.range n).map fun k => (j, k)).drop (start - acc)).length =
            n - (start - acc) := by
          simp
        have hzero : start - acc - n = 0 := by
          omega
        rw [List.drop_append, List.length_map, List.length_range, hzero, List.drop_zero,
          List.take_append, hlen]
        have hhead : (⟨j, start - acc, min remaining (n - (start - acc))⟩ : Segment ℕ).positions =
            (((List.range n).map fun k => (j, k)).drop (start - acc)).take remaining := by
          by_cases hn : start - acc ≤ n
          · rw [positions_eq_take_drop (n := n) (by omega), ← hlen]
            exact List.take_eq_take_iff.2 (by simp)
          · omega
        dsimp only
        split
        · rename_i hdone
          have hnone : remaining - (n - (start - acc)) = 0 := by
            omega
          rw [hnone, List.take_zero, List.append_nil, List.flatMap_singleton]
          exact hhead
        · rename_i hmore
          have hrest : remaining - min remaining (n - (start - acc)) =
              remaining - (n - (start - acc)) := by
            omega
          have hbehind : start - (acc + n) = 0 := by
            omega
          rw [List.flatMap_cons, hhead, ih, hrest, hbehind, List.drop_zero]

/-- Every part lies inside its file. -/
theorem spans_inside {start j : ℕ} {ns : List ℕ} {remaining acc : ℕ} {seg : Segment ℕ}
    (h : seg ∈ spans start j ns remaining acc) :
    ∃ k n, seg.path = j + k ∧ ns[k]? = some n ∧ seg.offset + seg.length ≤ n := by
  induction ns generalizing j remaining acc with
  | nil => exact absurd h List.not_mem_nil
  | cons n ns ih =>
      have hlater : ∀ {remaining acc : ℕ}, seg ∈ spans start (j + 1) ns remaining acc →
          ∃ k n', seg.path = j + k ∧ (n :: ns)[k]? = some n' ∧ seg.offset + seg.length ≤ n' := by
        intro remaining acc hmem
        obtain ⟨k, n', hpath, hget, hle⟩ := ih hmem
        exact ⟨k + 1, n', by omega, hget, hle⟩
      have hhere : start - acc ≤ n →
          seg = ⟨j, start - acc, min remaining (n - (start - acc))⟩ →
          ∃ k n', seg.path = j + k ∧ (n :: ns)[k]? = some n' ∧ seg.offset + seg.length ≤ n' := by
        rintro hle rfl
        refine ⟨0, n, rfl, rfl, ?_⟩
        dsimp only
        omega
      rw [spans] at h
      split at h
      · exact hlater h
      · rename_i htake
        dsimp only at h
        split at h
        · exact hhere (by omega) (List.mem_singleton.1 h)
        · rcases List.mem_cons.1 h with hseg | hmem
          · exact hhere (by omega) hseg
          · exact hlater hmem

/-- The lengths of the pieces add up. -/
theorem sum_pieces (total size count : ℕ) :
    ((List.range count).map fun i => min ((i + 1) * size) total - i * size).sum =
      min (count * size) total := by
  induction count with
  | zero => simp
  | succ count ih =>
      rw [List.range_succ, List.map_append, List.sum_append, ih]
      simp only [List.map_cons, List.map_nil, List.sum_cons, List.sum_nil, Nat.succ_mul]
      omega

/-! ### A range cut into blocks -/

/-- Whether a part, given by offset and length, contains a position. -/
def covers (x : ℕ) (part : ℕ × ℕ) : Bool := decide (part.1 ≤ x ∧ x < part.1 + part.2)

/-- Every position below the length lies in exactly one of the parts, and no other position does. -/
def CoversOnce (n : ℕ) (parts : List (ℕ × ℕ)) : Prop :=
  ∀ x, parts.countP (covers x) = if x < n then 1 else 0

/-- The part that a block has of a range; the last block may be shorter. -/
def blockPart (size n j : ℕ) : ℕ × ℕ := (j * size, min (n - j * size) size)

section Blocks

variable {size n : ℕ}

theorem covers_blockPart (hsize : 0 < size) {x j : ℕ} :
    covers x (blockPart size n j) = true ↔ x < n ∧ x / size = j := by
  have hdiv : x / size = j ↔ j * size ≤ x ∧ x < j * size + size := by
    rw [Nat.div_eq_iff hsize]
    omega
  rw [hdiv, covers, blockPart, decide_eq_true_eq]
  dsimp only
  generalize j * size = start
  omega

theorem blockPart_inj (hsize : 0 < size) {j k : ℕ} (h : blockPart size n j = blockPart size n k) :
    j = k := Nat.eq_of_mul_eq_mul_right hsize (congrArg Prod.fst h)

/-- How many blocks contain a position depends on the one block it belongs to. -/
theorem countP_covers (hsize : 0 < size) {parts : List (ℕ × ℕ)}
    (hparts : ∀ part ∈ parts, ∃ j, part = blockPart size n j) (x : ℕ) :
    parts.countP (covers x) = if x < n then parts.count (blockPart size n (x / size)) else 0 := by
  split
  · rename_i hx
    refine List.countP_congr ?_
    intro part hpart
    obtain ⟨j, rfl⟩ := hparts part hpart
    rw [covers_blockPart hsize, beq_iff_eq]
    constructor
    · rintro ⟨-, rfl⟩
      rfl
    · intro h
      exact ⟨hx, (blockPart_inj hsize h).symm⟩
  · rename_i hx
    refine List.countP_eq_zero.2 ?_
    intro part hpart
    obtain ⟨j, rfl⟩ := hparts part hpart
    rw [covers_blockPart hsize]
    exact fun h => hx h.1

/-- **Blocks that are each there once cover a range once.** -/
theorem coversOnce_of_count (hsize : 0 < size) {parts : List (ℕ × ℕ)}
    (hparts : ∀ part ∈ parts, ∃ j, part = blockPart size n j)
    (hcount : ∀ j, j * size < n → parts.count (blockPart size n j) = 1) : CoversOnce n parts := by
  intro x
  rw [countP_covers hsize hparts]
  split
  · rename_i hx
    exact hcount _ (lt_of_le_of_lt (Nat.div_mul_le_self x size) hx)
  · rfl

end Blocks

end Tortillas
