/-
**Blocks that are asked for.**

A block is asked for by its piece, its offset in the piece and its length; both actors of a request
know it by this key.  The torrent keeps a block it has asked for by the numbers of the piece and of
the block, and computes the key from the lengths in the info dictionary.  A block that is
outstanding, that is of a known piece and not received, passes the checks when it comes in.

Main definitions:

* `Info.pieceLen`, `Info.blockKey` — the length of a piece, and the key of a block;
* `PeerCommand.need` — the request for a block;
* `TorrentActor.Outstanding` — a block that can be received.

Main results:

* `TorrentActor.Outstanding.accepts` — **what is outstanding is accepted when it comes in**;
* `PieceScheduler.Wanted.key` — what is asked for is the key of a block;
* `checkBlock_eq_some` — what the checks say.
-/

import Tortillas.TorrentChanges
import Tortillas.PeerActor

set_option relaxedAutoImplicit false
set_option autoImplicit false

namespace Tortillas

variable {H : Type}

namespace Info

/-- The length of a piece. -/
def pieceLen (info : Info H) (index : ℕ) : ℕ :=
  concretePieceLength info.pieceCount info.pieceLength.toNat info.totalLength index

/-- A block as it is asked for. -/
def blockKey (info : Info H) (i j : ℕ) : BlockKey :=
  (i, j * blockSize, min (info.pieceLen i - j * blockSize) blockSize)

theorem pieceLen_le (info : Info H) (index : ℕ) : info.pieceLen index ≤ usizeMax := by
  have htotal := info.totalLength_le
  have hpiece : info.pieceLength.toNat ≤ usizeMax := by
    have := info.pieceLength.toNat_lt
    unfold usizeMax
    omega
  have hmod := Nat.mod_le info.totalLength info.pieceLength.toNat
  unfold pieceLen concretePieceLength lastPieceLength
  split
  · split
    · exact hpiece
    · omega
  · exact hpiece

theorem pieceLen_pos {info : Info H} (hpos : 0 < info.pieceLength.toNat) (index : ℕ) :
    0 < info.pieceLen index := by
  rw [pieceLen, concretePieceLength, lastPieceLength]
  split
  · split <;> omega
  · exact hpos

/-- The key of a block says which block it is. -/
theorem eq_of_blockKey {info : Info H} {i j index offset length : ℕ}
    (h : info.blockKey i j = (index, offset, length)) : i = index ∧ j = offset / blockSize := by
  obtain ⟨hi, hrest⟩ := Prod.mk.inj h
  obtain ⟨hj, -⟩ := Prod.mk.inj hrest
  exact ⟨hi, by rw [← hj, Nat.mul_div_cancel _ blockSize_pos]⟩

end Info

namespace PeerCommand

/-- The request for a block. -/
def need (k : BlockKey) : PeerCommand := .needPiece k.1 k.2.1 k.2.2

/-- Only its request makes a block pending. -/
theorem of_mem_applyTo {k : BlockKey} {s : Finset BlockKey} {command : PeerCommand}
    (h : k ∈ command.applyTo s) : k ∈ s ∨ command = need k := by
  cases command with
  | needPiece =>
      rcases Finset.mem_insert.1 h with rfl | h
      · exact Or.inr rfl
      · exact Or.inl h
  | cancelPiece => exact Or.inl (Finset.mem_erase.1 h).2
  | _ => exact Or.inl h

end PeerCommand

/-! ### The checks on a block -/

namespace TorrentActor

/-- **What the checks on the range of a block say.** -/
theorem checkBlock_eq_some {info : Info H} {index offset length n : ℕ} :
    checkBlock info index offset length = some n ↔
      index < info.pieceCount ∧ offset < info.pieceLen index ∧ 0 < length ∧
      length = min (info.pieceLen index - offset) blockSize ∧
      n = divCeil (info.pieceLen index) blockSize := by
  have hmax := info.pieceLen_le index
  have hdiv : offset < info.pieceLen index →
      offset / blockSize < divCeil (info.pieceLen index) blockSize := by
    intro h
    rw [lt_divCeil_iff blockSize_pos]
    exact lt_of_le_of_lt (Nat.div_mul_le_self offset blockSize) h
  have hpos := blockSize_pos
  unfold checkBlock
  change (if _ then none else
    if info.pieceLen index ≤ offset then none else if length = 0 then none else
    if usizeMax < offset + length then none else
    if info.pieceLen index < offset + length then none else
    if divCeil (info.pieceLen index) blockSize ≤ offset / blockSize then none else
    if length ≠ min (info.pieceLen index - offset) blockSize then none else
    some (divCeil (info.pieceLen index) blockSize)) = some n ↔ _
  constructor
  · intro h
    split at h
    · cases h
    · repeat' split at h
      all_goals cases h
      refine ⟨?_, ?_, ?_, ?_, rfl⟩ <;> omega
  · rintro ⟨hindex, hoffset, hlength, hexact, rfl⟩
    have hblock := hdiv hoffset
    rw [if_neg (by omega), if_neg (by omega), if_neg (by omega), if_neg (by omega),
      if_neg (by omega), if_neg (by omega), if_neg (by omega)]

/-- A block of a known piece that has not been received. -/
structure Outstanding (t : TorrentActor H) (dict : Info H) (i j : ℕ) : Prop where
  info : t.infoDict = some dict
  piece : i < dict.pieceCount
  block : j * blockSize < dict.pieceLen i
  missing : t.pieceScheduler.isDuplicateBlock i j = false

/-- **What is outstanding is accepted when it comes in.** -/
theorem Outstanding.accepts {t : TorrentActor H} {info : Info H} {i j index offset length : ℕ}
    (h : t.Outstanding info i j) (hkey : info.blockKey i j = (index, offset, length)) :
    ∃ n, t.Accepts index offset length info n := by
  obtain ⟨rfl, hrest⟩ := Prod.mk.inj hkey
  obtain ⟨rfl, rfl⟩ := Prod.mk.inj hrest
  have hblock := h.block
  have hpos := blockSize_pos
  refine ⟨_, h.info, checkBlock_eq_some.2 ⟨h.piece, hblock, ?_, rfl, rfl⟩, ?_⟩
  · omega
  · rw [Nat.mul_div_cancel _ hpos]
    exact h.missing

end TorrentActor

/-! ### What the scheduler asks for -/

namespace PieceScheduler

/-- What is asked for is the key of a block, when the scheduler knows the pieces. -/
theorem Wanted.key {s : PieceScheduler} {info : Info H} {r : BlockRequest}
    (h : s.Wanted info.pieceLength.toNat info.totalLength r)
    (hlen : s.completedPieces.length = info.pieceCount) :
    r.pieceIndex < info.pieceCount ∧ r.blockIndex * blockSize < info.pieceLen r.pieceIndex ∧
    (r.pieceIndex, r.offset, r.length) = info.blockKey r.pieceIndex r.blockIndex := by
  obtain ⟨hpiece, -⟩ := List.getElem?_eq_some_iff.1 h.piece
  have hblock := h.block
  have hlength := congrArg BlockRequest.length h.length
  rw [hlen] at hpiece hblock hlength
  rw [lt_divCeil_iff blockSize_pos] at hblock
  refine ⟨hpiece, hblock, ?_⟩
  rw [hlength, Info.blockKey, BlockRequest.offset]
  change _ = (r.pieceIndex, _, min (concretePieceLength _ _ _ _ - _) _)
  unfold blockRequest
  simp only
  congr 2
  split <;> omega

/-- Whether a block has been received depends on the rows alone. -/
theorem isDuplicateBlock_congr {s t : PieceScheduler} (h : t.completedBlocks = s.completedBlocks)
    (i j : ℕ) : t.isDuplicateBlock i j = s.isDuplicateBlock i j := by
  rw [isDuplicateBlock, isDuplicateBlock, h]

/-- A row that is dropped leaves no block received. -/
theorem isDuplicateBlock_erase {s t : PieceScheduler} {index i j : ℕ}
    (hrows : t.completedBlocks = s.completedBlocks.erase index)
    (h : s.isDuplicateBlock i j = false) : t.isDuplicateBlock i j = false := by
  unfold isDuplicateBlock at h ⊢
  rw [hrows, HashMap.get?_erase]
  split
  · rfl
  · exact h

/-- Receiving a block leaves the others as they were. -/
theorem isDuplicateBlock_markBlockComplete {s : PieceScheduler} {i j i' j' : ℕ} (n : ℕ)
    (h : ¬ (i' = i ∧ j' = j)) :
    (s.markBlockComplete i j n).1.isDuplicateBlock i' j' = s.isDuplicateBlock i' j' := by
  rw [markBlockComplete_fst]
  refine (isDuplicateBlock_congr (sameProgress_takeBack _ i j).completedBlocks i' j').trans ?_
  unfold isDuplicateBlock
  simp only
  rw [HashMap.get?_insert]
  split
  · rename_i hi
    subst hi
    have hj : j ≠ j' := fun hj => h ⟨rfl, hj.symm⟩
    rw [Option.bind_some, List.getElem?_set_ne hj]
    cases s.completedBlocks.get? i' with
    | none =>
        rw [Option.getD_none, Option.bind_none]
        by_cases hlt : j' < n
        · simp [hlt]
        · simp [hlt]
    | some row => rfl
  · rfl

/-- Peers that leave take their requests with them. -/
theorem inFlightAt_of_foldl_peerDisconnected {dead : List PeerId} {s : PieceScheduler} {i j : ℕ}
    {x : InFlightBlock} (h : (dead.foldl peerDisconnected s).inFlightAt i j = some x) :
    s.inFlightAt i j = some x ∧ x.peerId ∉ dead := by
  induction dead generalizing s with
  | nil => exact ⟨h, List.not_mem_nil⟩
  | cons q dead ih =>
      obtain ⟨hat, hnot⟩ := ih h
      rw [inFlightAt_peerDisconnected] at hat
      obtain ⟨hat, hne⟩ := Option.filter_eq_some_iff.1 hat
      refine ⟨hat, fun hmem => ?_⟩
      rcases List.mem_cons.1 hmem with heq | hmem
      · simp [heq] at hne
      · exact hnot hmem

end PieceScheduler

end Tortillas
