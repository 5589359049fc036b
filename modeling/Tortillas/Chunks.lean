/-
**Sequences cut into chunks.**

A sequence is cut at the multiples of a size.  All chunks have this size, except that the last one may be
shorter.  Put one behind the other again, they are the sequence.

Main definitions:

* `chunks` — the chunks of a sequence.

Main results:

* `flatMap_pieces` — the first chunks of a sequence are its front;
* `flatten_chunks` — the chunks of a sequence are the sequence;
* `chunks_append`, `chunks_flatten` — what is made of parts of the right size is cut into these parts.
-/

import Tortillas.Usize

set_option relaxedAutoImplicit false
set_option autoImplicit false

namespace Tortillas

variable {α : Type} {size : ℕ}

/-- The chunks of a sequence, in order. -/
def chunks (size : ℕ) (l : List α) : List (List α) :=
  (List.range (divCeil l.length size)).map fun i => (l.drop (i * size)).take size

theorem divCeil_of_dvd {a b : ℕ} (hb : 0 < b) (h : b ∣ a) : divCeil a b = a / b := by
  rw [divCeil_eq hb, if_pos (Nat.mod_eq_zero_of_dvd h)]

/-- The first pieces of a sequence are its front. -/
theorem flatMap_pieces (bytes : List α) (size count : ℕ) :
    ((List.range count).flatMap fun i => (bytes.drop (i * size)).take size) =
      bytes.take (count * size) := by
  induction count with
  | zero => simp
  | succ count ih =>
      rw [List.range_succ, List.flatMap_append, ih, Nat.succ_mul, List.take_add]
      simp

/-- **The chunks of a sequence are the sequence.** -/
theorem flatten_chunks (hsize : 0 < size) (l : List α) : (chunks size l).flatten = l := by
  rw [chunks, ← List.flatMap_def, flatMap_pieces]
  exact List.take_of_length_le (le_divCeil_mul hsize)

@[simp] theorem chunks_nil (size : ℕ) (hsize : 0 < size) : chunks size ([] : List α) = [] := by
  have hnone : ¬0 < divCeil ([] : List α).length size := mt (divCeil_pos_iff hsize).1 (Nat.lt_irrefl 0)
  rw [chunks, Nat.eq_zero_of_not_pos hnone]
  rfl

/-- The first chunk, and those of what is behind it. -/
theorem chunks_append (hsize : 0 < size) {chunk : List α} (hchunk : chunk.length = size) (l : List α) :
    chunks size (chunk ++ l) = chunk :: chunks size l := by
  have hcount : divCeil (chunk ++ l).length size = divCeil l.length size + 1 := by
    rw [divCeil, divCeil, List.length_append, hchunk, ← Nat.add_div_right _ hsize]
    congr 1
    omega
  rw [chunks, chunks, hcount, List.range_succ_eq_map, List.map_cons, List.map_map, Nat.zero_mul, List.drop_zero,
    List.take_left' hchunk]
  congr 1
  refine List.map_congr_left fun i _ => ?_
  change ((chunk ++ l).drop ((i + 1) * size)).take size = _
  rw [Nat.succ_mul, Nat.add_comm, ← List.drop_drop, List.drop_left' hchunk]

theorem dvd_length_flatten {parts : List (List α)} (hparts : ∀ part ∈ parts, part.length = size) :
    size ∣ parts.flatten.length := by
  induction parts with
  | nil => exact Nat.dvd_zero size
  | cons part parts ih =>
      rw [List.forall_mem_cons] at hparts
      rw [List.flatten_cons, List.length_append]
      exact Nat.dvd_add (hparts.1 ▸ Nat.dvd_refl _) (ih hparts.2)

/-- **What is made of parts of the right size is cut into these parts.** -/
theorem chunks_flatten (hsize : 0 < size) {parts : List (List α)} (hparts : ∀ part ∈ parts, part.length = size) :
    chunks size parts.flatten = parts := by
  induction parts with
  | nil => exact chunks_nil size hsize
  | cons part parts ih =>
      rw [List.forall_mem_cons] at hparts
      rw [List.flatten_cons, chunks_append hsize hparts.1, ih hparts.2]

/-- All chunks have the size, if it divides the length of the sequence. -/
theorem length_of_mem_chunks {l : List α} (hdvd : size ∣ l.length) {chunk : List α} (hchunk : chunk ∈ chunks size l) :
    chunk.length = size := by
  obtain ⟨i, hi, rfl⟩ := List.mem_map.1 hchunk
  obtain ⟨count, hcount⟩ := hdvd
  rcases Nat.eq_zero_or_pos size with rfl | hsize
  · rw [List.take_zero, List.length_nil]
  · have hlt := (lt_divCeil_iff hsize).1 (List.mem_range.1 hi)
    rw [hcount, Nat.mul_comm] at hlt
    have hsucc : (i + 1) * size ≤ size * count := by
      rw [Nat.mul_comm]
      exact Nat.mul_le_mul_left size (Nat.lt_of_mul_lt_mul_left hlt)
    rw [Nat.succ_mul] at hsucc
    rw [List.length_take, List.length_drop, hcount]
    omega

end Tortillas
