/-
**The piece scheduler.**

`pieces/piece_scheduler.rs` decides which blocks are asked of which peer.  It keeps the pieces
that are complete, the blocks received of pieces that are not, the blocks in flight with the peer
they were asked of and the time of the request, and three views derived from these: the number of
blocks in flight for each peer, a cursor for each peer where its next scan starts, and the index of
the first incomplete piece.

Every operation of the source is a function on `PieceScheduler`; a time read from the clock is an
argument.

Main definitions:

* `PieceScheduler` — the state, and its operations under the names of the source;
* `PieceScheduler.requestSlot`, `PieceScheduler.requestSlots` — one round and the whole of the scan
  in `PieceScheduler.requestsForPeer`;
* `concretePieceLength` — the length of a piece, the last one being what is left over;
* `PieceScheduler.takeBack` — what receiving a block and releasing a request have in common.

Main results:

* `PieceScheduler.inFlightAt_takeBack`, `PieceScheduler.inFlightAt_peerDisconnected`,
  `PieceScheduler.inFlightAt_assign` — the blocks in flight after each operation;
* `PieceScheduler.requestsForPeer_induct` — **induction over the assignments of a scan**;
* `PieceScheduler.requestsForPeer_assigns` — **what a scan does**: it puts in flight for the peer
  the blocks it answers, which were not in flight, not received and not of a complete piece, and
  touches nothing of any other peer.
-/

import Tortillas.SlotTable
import Tortillas.PeerId
import Tortillas.Usize

set_option relaxedAutoImplicit false
set_option autoImplicit false

namespace Tortillas

/-- The size of a block, the unit in which data is requested. -/
def blockSize : ℕ := 16 * 1024

theorem blockSize_pos : 0 < blockSize := by decide

/-- The length of the last piece: what is left over after the pieces before it. -/
def lastPieceLength (pieceLength totalLength : ℕ) : ℕ :=
  if totalLength % pieceLength = 0 then pieceLength else totalLength % pieceLength

/-- The length of a piece of a torrent with the given number of pieces. -/
def concretePieceLength (pieceCount pieceLength totalLength index : ℕ) : ℕ :=
  if index = pieceCount - 1 then lastPieceLength pieceLength totalLength else pieceLength

/-- A block to be asked of a peer. -/
structure BlockRequest where
  pieceIndex : ℕ
  blockIndex : ℕ
  length : ℕ
  deriving DecidableEq, Repr

/-- Where the block starts in its piece. -/
def BlockRequest.offset (r : BlockRequest) : ℕ := r.blockIndex * blockSize

/-- A request that has been sent and not been answered. -/
structure InFlightBlock where
  peerId : PeerId
  requestedAt : ℕ
  deriving DecidableEq

/-- The state of the scheduler. -/
structure PieceScheduler where
  completedPieces : List Bool
  completedBlocks : HashMap ℕ (List Bool)
  inFlight : SlotTable InFlightBlock
  inFlightPerPeer : HashMap PeerId ℕ
  peerAvailability : HashMap PeerId (List Bool)
  requestCursors : HashMap PeerId ℕ
  nextPiece : ℕ

namespace PieceScheduler

/-- `PieceScheduler::new`. -/
def new (pieceCount : ℕ) : PieceScheduler where
  completedPieces := List.replicate pieceCount false
  completedBlocks := ∅
  inFlight := ∅
  inFlightPerPeer := ∅
  peerAvailability := ∅
  requestCursors := ∅
  nextPiece := 0

/-- The loop that moves the index of the first incomplete piece past the complete ones; the list
holds the pieces from the index on. -/
def skipComplete : List Bool → ℕ → ℕ
  | true :: rest, next => skipComplete rest (next + 1)
  | _, next => next

def markPieceComplete (s : PieceScheduler) (index : ℕ) : PieceScheduler :=
  let pieces := s.completedPieces.set index true
  { s with
    completedBlocks := s.completedBlocks.erase index
    completedPieces := pieces
    nextPiece := skipComplete (pieces.drop s.nextPiece) s.nextPiece }

def restorePieceBlocks (s : PieceScheduler) (index : ℕ) (blocks : List Bool) : PieceScheduler :=
  { s with completedBlocks := s.completedBlocks.insert index blocks }

def removePieceBlocks (s : PieceScheduler) (index : ℕ) : PieceScheduler :=
  { s with completedBlocks := s.completedBlocks.erase index }

def isDuplicateBlock (s : PieceScheduler) (pieceIndex blockIndex : ℕ) : Bool :=
  ((s.completedBlocks.get? pieceIndex).bind (·[blockIndex]?)).getD false

def isPieceComplete (s : PieceScheduler) (pieceIndex : ℕ) : Bool :=
  ((s.completedBlocks.get? pieceIndex).map (·.all id)).getD false

/-- The request in flight for a block. -/
def inFlightAt (s : PieceScheduler) (pieceIndex blockIndex : ℕ) : Option InFlightBlock :=
  s.inFlight.at? pieceIndex blockIndex

def isInFlight (s : PieceScheduler) (pieceIndex blockIndex : ℕ) : Bool :=
  (s.inFlightAt pieceIndex blockIndex).isSome

/-- Take the request of a block out of the table. -/
def removeInFlight (s : PieceScheduler) (pieceIndex blockIndex : ℕ) :
    Option (InFlightBlock × PieceScheduler) :=
  (s.inFlightAt pieceIndex blockIndex).map fun request =>
    (request, { s with inFlight := s.inFlight.clear pieceIndex blockIndex })

def decrementInFlight (s : PieceScheduler) (peerId : PeerId) : PieceScheduler :=
  match s.inFlightPerPeer.get? peerId with
  | none => s
  | some count =>
      if count - 1 = 0 then { s with inFlightPerPeer := s.inFlightPerPeer.erase peerId }
      else { s with inFlightPerPeer := s.inFlightPerPeer.insert peerId (count - 1) }

/-- Record a block as received; also answers the peer it had been asked of, if it was in flight. -/
def markBlockComplete (s : PieceScheduler) (pieceIndex blockIndex totalBlocks : ℕ) :
    PieceScheduler × Option PeerId :=
  let blocks := (s.completedBlocks.get? pieceIndex).getD (List.replicate totalBlocks false)
  let s := { s with
    completedBlocks := s.completedBlocks.insert pieceIndex (blocks.set blockIndex true) }
  match s.removeInFlight pieceIndex blockIndex with
  | none => (s, none)
  | some (request, s) => (s.decrementInFlight request.peerId, some request.peerId)

/-- The request for a block of a piece of the given length. -/
def blockRequest (pieceIndex blockIndex pieceLength : ℕ) : BlockRequest :=
  let offset := blockIndex * blockSize
  let length := if offset + blockSize > pieceLength then pieceLength - offset else blockSize
  ⟨pieceIndex, blockIndex, length⟩

/-! ### Asking a peer for blocks -/

section Requests

variable (peerId : PeerId) (pieceLength totalLength : ℕ) (clock : ℕ → ℕ)

/-- The first slot of the scan: the first block of the first incomplete piece. -/
def firstSlot (s : PieceScheduler) : ℕ :=
  saturatingMul s.nextPiece (divCeil pieceLength blockSize)

/-- The number of slots: a full row of blocks for every piece but the last. -/
def totalSlots (pieceCount : ℕ) : ℕ :=
  saturatingAdd (saturatingMul (pieceCount - 1) (divCeil pieceLength blockSize))
    (divCeil (lastPieceLength pieceLength totalLength) blockSize)

/-- Put a block in flight for the peer at a time, and move the peer's cursor behind its slot. -/
def assign (now slot pieceIndex blockIndex : ℕ) (s : PieceScheduler) : PieceScheduler :=
  let nextCursor := saturatingAdd slot 1
  let total := totalSlots pieceLength totalLength s.completedPieces.length
  { s with
    inFlight := s.inFlight.put pieceIndex blockIndex ⟨peerId, now⟩
    inFlightPerPeer :=
      s.inFlightPerPeer.insert peerId ((s.inFlightPerPeer.get? peerId).getD 0 + 1)
    requestCursors := s.requestCursors.insert peerId
      (if nextCursor < total then nextCursor else s.firstSlot pieceLength) }

/-- One round of the scan: `none` when the slot is passed over. -/
def requestSlot (available : List Bool) (s : PieceScheduler) (slot : ℕ) :
    Option (PieceScheduler × BlockRequest) :=
  let blocksPerPiece := divCeil pieceLength blockSize
  let pieceIndex := slot / blocksPerPiece
  let blockIndex := slot % blocksPerPiece
  if s.completedPieces.getD pieceIndex false || !available.getD pieceIndex false then none
  else
    let pieceLen :=
      concretePieceLength s.completedPieces.length pieceLength totalLength pieceIndex
    if divCeil pieceLen blockSize ≤ blockIndex then none
    else if s.isInFlight pieceIndex blockIndex || s.isDuplicateBlock pieceIndex blockIndex then none
    else some (s.assign peerId pieceLength totalLength (clock slot) slot pieceIndex blockIndex,
      blockRequest pieceIndex blockIndex pieceLen)

/-- The scan over a list of slots, until `limit` blocks have been assigned. -/
def requestSlots (available : List Bool) :
    ℕ → List ℕ → PieceScheduler → PieceScheduler × List BlockRequest
  | _, [], s => (s, [])
  | limit, slot :: slots, s =>
      match s.requestSlot peerId pieceLength totalLength clock available slot with
      | none => requestSlots available limit slots s
      | some (s, request) =>
          if limit ≤ 1 then (s, [request])
          else
            let rest := requestSlots available (limit - 1) slots s
            (rest.1, request :: rest.2)

/-- `requests_for_peer`: scan from the peer's cursor to the last slot and on from the first, and
put up to `limit` blocks in flight that the peer has and nobody else is asked for.  The clock is
read once for each block that is assigned. -/
def requestsForPeer (limit : ℕ) (s : PieceScheduler) : PieceScheduler × List BlockRequest :=
  let pieceCount := s.completedPieces.length
  match s.peerAvailability.get? peerId with
  | none => (s, [])
  | some available =>
      if limit = 0 ∨ pieceCount = 0 ∨ divCeil pieceLength blockSize = 0 then (s, [])
      else
        let first := s.firstSlot pieceLength
        let total := totalSlots pieceLength totalLength pieceCount
        let cursor :=
          if s.nextPiece = pieceCount then total
          else max first (min ((s.requestCursors.get? peerId).getD first) total)
        let slots := List.range' cursor (total - cursor) ++ List.range' first (cursor - first)
        s.requestSlots peerId pieceLength totalLength clock available limit slots

end Requests

def inFlightForPeer (s : PieceScheduler) (peerId : PeerId) : ℕ :=
  (s.inFlightPerPeer.get? peerId).getD 0

def updatePeerAvailability (s : PieceScheduler) (peerId : PeerId) (available : List Bool) :
    PieceScheduler :=
  { s with peerAvailability := s.peerAvailability.insert peerId available }

/-! ### Releasing requests -/

def peerDisconnected (s : PieceScheduler) (peerId : PeerId) : PieceScheduler :=
  { s with
    inFlight := s.inFlight.keepOnly fun request => request.peerId != peerId
    inFlightPerPeer := s.inFlightPerPeer.erase peerId
    peerAvailability := s.peerAvailability.erase peerId
    requestCursors := s.requestCursors.erase peerId }

/-- Count one more request for a peer. -/
def countRequest (counts : HashMap PeerId ℕ) (peerId : PeerId) : HashMap PeerId ℕ :=
  counts.insert peerId ((counts.get? peerId).getD 0 + 1)

/-- `release_stale_requests` at time `now`: drop the requests that are at least `timeout` old and
count the others anew.  Also answers the number of requests dropped. -/
def releaseStaleRequests (s : PieceScheduler) (now timeout : ℕ) : PieceScheduler × ℕ :=
  let fresh : InFlightBlock → Bool := fun request => !decide (timeout ≤ now - request.requestedAt)
  ({ s with
      inFlight := s.inFlight.keepOnly fresh
      inFlightPerPeer :=
        ((s.inFlight.values fresh).map InFlightBlock.peerId).foldl countRequest ∅ },
    s.inFlight.count fun request => !fresh request)

/-- `release_peer_request`: release a block, but only if it is in flight for this peer. -/
def releasePeerRequest (s : PieceScheduler) (peerId : PeerId) (pieceIndex offset : ℕ) :
    PieceScheduler :=
  if (s.inFlightAt pieceIndex (offset / blockSize)).any (·.peerId == peerId) then
    let s := ((s.removeInFlight pieceIndex (offset / blockSize)).map Prod.snd).getD s
    s.decrementInFlight peerId
  else s

/-! ### Taking a request back -/

/-- Take the request of a block back: clear its slot and count one less for its peer. -/
def takeBack (s : PieceScheduler) (pieceIndex blockIndex : ℕ) : PieceScheduler :=
  match s.inFlightAt pieceIndex blockIndex with
  | none => s
  | some request =>
      { s with inFlight := s.inFlight.clear pieceIndex blockIndex }.decrementInFlight request.peerId

/-- What `decrementInFlight` touches: the counts alone. -/
theorem decrementInFlight_eq (s : PieceScheduler) (p : PeerId) :
    s.decrementInFlight p =
      { s with inFlightPerPeer := (s.decrementInFlight p).inFlightPerPeer } := by
  unfold decrementInFlight
  split
  · rfl
  · split <;> rfl

@[simp] theorem inFlight_decrementInFlight (s : PieceScheduler) (p : PeerId) :
    (s.decrementInFlight p).inFlight = s.inFlight := by
  rw [decrementInFlight_eq]

/-- The counts of the other peers stay. -/
theorem get?_decrementInFlight_of_ne (s : PieceScheduler) {p q : PeerId} (h : q ≠ p) :
    (s.decrementInFlight p).inFlightPerPeer.get? q = s.inFlightPerPeer.get? q := by
  unfold decrementInFlight
  split
  · rfl
  · split
    · exact HashMap.get?_erase_of_ne h
    · exact HashMap.get?_insert_of_ne h

theorem get?_decrementInFlight_self (s : PieceScheduler) (p : PeerId) :
    (s.decrementInFlight p).inFlightPerPeer.get? p =
      (s.inFlightPerPeer.get? p).bind fun c => if c - 1 = 0 then none else some (c - 1) := by
  unfold decrementInFlight
  cases hc : s.inFlightPerPeer.get? p with
  | none => simpa using hc
  | some c =>
      by_cases h0 : c - 1 = 0
      · simp [h0]
      · simp [h0]

/-- What `takeBack` touches: the blocks in flight and the counts. -/
theorem takeBack_eq (s : PieceScheduler) (i j : ℕ) :
    s.takeBack i j =
      { s with
        inFlight := (s.takeBack i j).inFlight
        inFlightPerPeer := (s.takeBack i j).inFlightPerPeer } := by
  unfold takeBack
  split
  · rfl
  · rw [decrementInFlight_eq]

theorem markBlockComplete_fst (s : PieceScheduler) (i j n : ℕ) :
    (s.markBlockComplete i j n).1 =
      { s with
        completedBlocks := s.completedBlocks.insert i
          (((s.completedBlocks.get? i).getD (List.replicate n false)).set j true) }.takeBack i j := by
  unfold markBlockComplete removeInFlight takeBack
  simp only [inFlightAt]
  cases s.inFlight.at? i j with
  | none => rfl
  | some request => rfl

/-- Releasing takes the request back if it is the peer's own, and does nothing otherwise. -/
theorem releasePeerRequest_eq (s : PieceScheduler) (p : PeerId) (i offset : ℕ) :
    s.releasePeerRequest p i offset =
      if (s.inFlightAt i (offset / blockSize)).any (·.peerId == p) then
        s.takeBack i (offset / blockSize)
      else s := by
  unfold releasePeerRequest removeInFlight takeBack
  cases hat : s.inFlightAt i (offset / blockSize) with
  | none => rfl
  | some request =>
      by_cases hp : request.peerId = p
      · simp [hp]
      · simp [hp]

/-! ### Lookups after each operation -/

/-- Two states with the same pieces, blocks and availability: they differ in the requests. -/
structure SameProgress (s t : PieceScheduler) : Prop where
  completedPieces : t.completedPieces = s.completedPieces
  completedBlocks : t.completedBlocks = s.completedBlocks
  peerAvailability : t.peerAvailability = s.peerAvailability
  nextPiece : t.nextPiece = s.nextPiece

theorem SameProgress.refl (s : PieceScheduler) : SameProgress s s := ⟨rfl, rfl, rfl, rfl⟩

theorem SameProgress.trans {s t u : PieceScheduler} (h₁ : SameProgress s t)
    (h₂ : SameProgress t u) : SameProgress s u :=
  ⟨h₂.completedPieces.trans h₁.completedPieces, h₂.completedBlocks.trans h₁.completedBlocks,
    h₂.peerAvailability.trans h₁.peerAvailability, h₂.nextPiece.trans h₁.nextPiece⟩

theorem sameProgress_takeBack (s : PieceScheduler) (i j : ℕ) : SameProgress s (s.takeBack i j) := by
  rw [takeBack_eq]
  exact ⟨rfl, rfl, rfl, rfl⟩

theorem sameProgress_releasePeerRequest (s : PieceScheduler) (p : PeerId) (i offset : ℕ) :
    SameProgress s (s.releasePeerRequest p i offset) := by
  rw [releasePeerRequest_eq]
  split
  · exact sameProgress_takeBack s _ _
  · exact SameProgress.refl s

/-- Taking a request back clears its block and no other. -/
theorem inFlightAt_takeBack (s : PieceScheduler) (i j i' j' : ℕ) :
    (s.takeBack i j).inFlightAt i' j' =
      if i' = i ∧ j' = j then none else s.inFlightAt i' j' := by
  unfold takeBack
  cases hat : s.inFlightAt i j with
  | none =>
      by_cases h : i' = i ∧ j' = j
      · simp [h, hat]
      · simp [h]
  | some request =>
      simp only [inFlightAt, inFlight_decrementInFlight]
      exact SlotTable.at?_clear s.inFlight i j i' j'

/-- Only the count of the peer whose request is taken back changes. -/
theorem get?_takeBack_of_ne (s : PieceScheduler) {i j : ℕ} {q : PeerId}
    (h : ∀ request, s.inFlightAt i j = some request → q ≠ request.peerId) :
    (s.takeBack i j).inFlightPerPeer.get? q = s.inFlightPerPeer.get? q := by
  unfold takeBack
  cases hat : s.inFlightAt i j with
  | none => rfl
  | some request => exact get?_decrementInFlight_of_ne _ (h request hat)

theorem inFlightAt_markBlockComplete (s : PieceScheduler) (i j n i' j' : ℕ) :
    (s.markBlockComplete i j n).1.inFlightAt i' j' =
      if i' = i ∧ j' = j then none else s.inFlightAt i' j' := by
  rw [markBlockComplete_fst, inFlightAt_takeBack]
  rfl

/-- A peer that leaves takes its requests with it, and no others. -/
theorem inFlightAt_peerDisconnected (s : PieceScheduler) (p : PeerId) (i j : ℕ) :
    (s.peerDisconnected p).inFlightAt i j = (s.inFlightAt i j).filter (·.peerId != p) :=
  SlotTable.at?_keepOnly _ s.inFlight i j

theorem inFlightAt_releaseStaleRequests (s : PieceScheduler) (now timeout i j : ℕ) :
    (s.releaseStaleRequests now timeout).1.inFlightAt i j =
      (s.inFlightAt i j).filter fun request => !decide (timeout ≤ now - request.requestedAt) :=
  SlotTable.at?_keepOnly _ s.inFlight i j

/-- Assigning a block puts it in flight and touches no other. -/
theorem inFlightAt_assign (p : PeerId) (pl tl now slot i j : ℕ) (s : PieceScheduler)
    (i' j' : ℕ) :
    (s.assign p pl tl now slot i j).inFlightAt i' j' =
      if i' = i ∧ j' = j then some ⟨p, now⟩ else s.inFlightAt i' j' :=
  SlotTable.at?_put s.inFlight i j ⟨p, now⟩ i' j'

/-! ### What a scan assigns -/

/-- A block that is wanted: of a piece that is not complete, not received, and of the length that
the block has in its piece. -/
structure Wanted (pl tl : ℕ) (s : PieceScheduler) (r : BlockRequest) : Prop where
  piece : s.completedPieces[r.pieceIndex]? = some false
  block : r.blockIndex <
    divCeil (concretePieceLength s.completedPieces.length pl tl r.pieceIndex) blockSize
  missing : s.isDuplicateBlock r.pieceIndex r.blockIndex = false
  length : r = blockRequest r.pieceIndex r.blockIndex
    (concretePieceLength s.completedPieces.length pl tl r.pieceIndex)

/-- A block that may be asked for: wanted, and not in flight. -/
structure Requestable (pl tl : ℕ) (s : PieceScheduler) (r : BlockRequest) : Prop
    extends Wanted pl tl s r where
  fresh : s.inFlightAt r.pieceIndex r.blockIndex = none

section Scan

variable {p : PeerId} {pl tl : ℕ} {clock : ℕ → ℕ} {available : List Bool}
  {s t : PieceScheduler} {r : BlockRequest} {slot : ℕ}

theorem lastPieceLength_le (h : 0 < pl) : lastPieceLength pl tl ≤ pl := by
  have hmod : tl % pl < pl := Nat.mod_lt tl h
  unfold lastPieceLength
  split <;> omega

/-- Every slot of the scan lies in the row of a piece. -/
theorem div_lt_of_lt_totalSlots {n : ℕ} (hbpp : 0 < divCeil pl blockSize) (hn : n ≠ 0)
    (h : slot < totalSlots pl tl n) : slot / divCeil pl blockSize < n := by
  have hpl : 0 < pl := (divCeil_pos_iff (by decide)).1 hbpp
  have hlast : divCeil (lastPieceLength pl tl) blockSize ≤ divCeil pl blockSize :=
    divCeil_le_divCeil blockSize (lastPieceLength_le hpl)
  have hmul : n * divCeil pl blockSize
      = (n - 1) * divCeil pl blockSize + divCeil pl blockSize := by
    obtain ⟨m, rfl⟩ := Nat.exists_eq_succ_of_ne_zero hn
    rw [Nat.succ_mul, Nat.succ_sub_one]
  have hslot : slot < n * divCeil pl blockSize := by
    unfold totalSlots saturatingAdd saturatingMul at h
    omega
  exact (Nat.div_lt_iff_lt_mul hbpp).2 hslot

/-- What one round of the scan found out about the slot it assigned, and what it did. -/
theorem requestSlot_eq_some
    (h : s.requestSlot p pl tl clock available slot = some (t, r)) :
    s.completedPieces.getD r.pieceIndex false = false ∧
    available.getD r.pieceIndex false = true ∧
    r.pieceIndex = slot / divCeil pl blockSize ∧
    r.blockIndex <
      divCeil (concretePieceLength s.completedPieces.length pl tl r.pieceIndex) blockSize ∧
    s.inFlightAt r.pieceIndex r.blockIndex = none ∧
    s.isDuplicateBlock r.pieceIndex r.blockIndex = false ∧
    r = blockRequest r.pieceIndex r.blockIndex
      (concretePieceLength s.completedPieces.length pl tl r.pieceIndex) ∧
    t = s.assign p pl tl (clock slot) slot r.pieceIndex r.blockIndex := by
  unfold requestSlot at h
  simp only at h
  split at h
  · cases h
  · rename_i havail
    split at h
    · cases h
    · rename_i hblock
      split at h
      · cases h
      · rename_i hfree
        cases h
        simp only [Bool.or_eq_true, not_or, Bool.not_eq_true, Bool.not_eq_false'] at havail hfree
        have hfresh : s.inFlightAt (slot / divCeil pl blockSize) (slot % divCeil pl blockSize)
            = none := by
          simpa [isInFlight] using hfree.1
        exact ⟨havail.1, havail.2, rfl, Nat.lt_of_not_le hblock, hfresh, hfree.2, rfl, rfl⟩

/-- **Induction over a scan**: a relation between the state before, the state after and the
requests, given for the empty scan and for a first assignment followed by a scan. -/
theorem requestSlots_induct {P : PieceScheduler → PieceScheduler → List BlockRequest → Prop}
    {S : ℕ → Prop} (hnil : ∀ s, P s s [])
    (hcons : ∀ s t u slot r rs, S slot →
      s.requestSlot p pl tl clock available slot = some (t, r) → P t u rs → P s u (r :: rs)) :
    ∀ (slots : List ℕ) (limit : ℕ) (s : PieceScheduler), (∀ slot ∈ slots, S slot) →
      P s (s.requestSlots p pl tl clock available limit slots).1
        (s.requestSlots p pl tl clock available limit slots).2 := by
  intro slots
  induction slots with
  | nil =>
      intro limit s _
      exact hnil s
  | cons slot slots ih =>
      intro limit s hS
      have hslot : S slot := hS slot (List.mem_cons_self ..)
      have hrest : ∀ slot ∈ slots, S slot := fun x hx => hS x (List.mem_cons_of_mem _ hx)
      unfold requestSlots
      cases hreq : s.requestSlot p pl tl clock available slot with
      | none => exact ih limit s hrest
      | some found =>
          obtain ⟨t, r⟩ := found
          by_cases hlimit : limit ≤ 1
          · simp only [hlimit, if_true]
            exact hcons s t t slot r [] hslot hreq (hnil t)
          · simp only [hlimit, if_false]
            exact hcons s t _ slot r _ hslot hreq (ih (limit - 1) t hrest)

/-- The slots of a scan, which goes from the cursor to the end and then from the first slot to the cursor. -/
theorem lt_of_mem_slots {first cursor total slot : ℕ} (hcursor : cursor ≤ max first total)
    (hslot : slot ∈ List.range' cursor (total - cursor) ++ List.range' first (cursor - first)) : slot < total := by
  rw [List.mem_append, List.mem_range'_1, List.mem_range'_1] at hslot
  omega

variable (p pl tl clock) in
/-- The same for `requestsForPeer`, whose slots all lie below the total number. -/
theorem requestsForPeer_induct {P : PieceScheduler → PieceScheduler → List BlockRequest → Prop}
    (hnil : ∀ s, P s s []) (limit : ℕ) (s : PieceScheduler)
    (hcons : ∀ available u t v slot r rs, slot / divCeil pl blockSize < s.completedPieces.length →
      s.peerAvailability.get? p = some available →
      u.requestSlot p pl tl clock available slot = some (t, r) → P t v rs → P u v (r :: rs)) :
    P s (s.requestsForPeer p pl tl clock limit).1 (s.requestsForPeer p pl tl clock limit).2 := by
  unfold requestsForPeer
  cases havail : s.peerAvailability.get? p with
  | none => exact hnil s
  | some available =>
      simp only
      split
      · exact hnil s
      · rename_i hguard
        simp only [not_or] at hguard
        obtain ⟨-, hcount, hbpp⟩ := hguard
        refine requestSlots_induct
          (S := fun slot => slot < totalSlots pl tl s.completedPieces.length) hnil ?_ _ limit s ?_
        · intro u t v slot r rs hslot
          exact hcons available u t v slot r rs
            (div_lt_of_lt_totalSlots (Nat.pos_of_ne_zero hbpp) hcount hslot) havail
        · intro slot hslot
          refine lt_of_mem_slots ?_ hslot
          split
          · exact Nat.le_max_right _ _
          · omega

/-- What a scan does to the scheduler, with the requests it answers. -/
structure Assigns (p : PeerId) (pl tl : ℕ) (s t : PieceScheduler) (rs : List BlockRequest) :
    Prop extends SameProgress s t where
  cursors : ∀ q, q ≠ p → t.requestCursors.get? q = s.requestCursors.get? q
  counts : ∀ q, q ≠ p → t.inFlightPerPeer.get? q = s.inFlightPerPeer.get? q
  /-- Blocks in flight stay in flight. -/
  kept : ∀ i j x, s.inFlightAt i j = some x → t.inFlightAt i j = some x
  /-- Blocks newly in flight are in flight for the peer and among the requests. -/
  added : ∀ i j x, t.inFlightAt i j = some x → s.inFlightAt i j = some x ∨
    x.peerId = p ∧ ∃ r ∈ rs, r.pieceIndex = i ∧ r.blockIndex = j
  /-- The requests are for blocks that may be asked for, and are in flight afterwards. -/
  requests : ∀ r ∈ rs, Requestable pl tl s r ∧
    ∃ x, t.inFlightAt r.pieceIndex r.blockIndex = some x ∧ x.peerId = p
  /-- Without a request nothing has happened. -/
  nothing : rs = [] → t = s

theorem Assigns.refl (p : PeerId) (pl tl : ℕ) (s : PieceScheduler) : Assigns p pl tl s s [] where
  toSameProgress := SameProgress.refl s
  cursors _ _ := rfl
  counts _ _ := rfl
  kept _ _ _ h := h
  added _ _ _ h := Or.inl h
  requests _ h := absurd h List.not_mem_nil
  nothing _ := rfl

/-- A first assignment followed by a scan. -/
theorem Assigns.cons {u : PieceScheduler} {rs : List BlockRequest}
    (hn : slot / divCeil pl blockSize < s.completedPieces.length)
    (h : s.requestSlot p pl tl clock available slot = some (t, r))
    (hrest : Assigns p pl tl t u rs) : Assigns p pl tl s u (r :: rs) := by
  obtain ⟨hpiece, -, hindex, hblock, hfresh, hmissing, hr, rfl⟩ := requestSlot_eq_some h
  have hat := inFlightAt_assign p pl tl (clock slot) slot r.pieceIndex r.blockIndex s
  have hsame : SameProgress s u := ⟨hrest.completedPieces, hrest.completedBlocks,
    hrest.peerAvailability, hrest.nextPiece⟩
  refine ⟨hsame, ?_, ?_, ?_, ?_, ?_, fun h => absurd h (List.cons_ne_nil _ _)⟩
  · intro q hq
    rw [hrest.cursors q hq]
    exact HashMap.get?_insert_of_ne hq
  · intro q hq
    rw [hrest.counts q hq]
    exact HashMap.get?_insert_of_ne hq
  · intro i j x hx
    refine hrest.kept i j x ?_
    rw [hat, if_neg]
    · exact hx
    · rintro ⟨rfl, rfl⟩
      rw [hfresh] at hx
      cases hx
  · intro i j x hx
    rcases hrest.added i j x hx with hold | ⟨hp, r', hr', hij⟩
    · rw [hat] at hold
      by_cases hij : i = r.pieceIndex ∧ j = r.blockIndex
      · rw [if_pos hij] at hold
        cases hold
        exact Or.inr ⟨rfl, r, List.mem_cons_self .., hij.1.symm, hij.2.symm⟩
      · rw [if_neg hij] at hold
        exact Or.inl hold
    · exact Or.inr ⟨hp, r', List.mem_cons_of_mem _ hr', hij⟩
  · intro r' hr'
    rcases List.mem_cons.1 hr' with rfl | hmem
    · refine ⟨⟨⟨?_, hblock, hmissing, hr⟩, hfresh⟩, ⟨p, clock slot⟩, ?_, rfl⟩
      · rw [← hindex] at hn
        rw [List.getD_eq_getElem?_getD, List.getElem?_eq_getElem hn] at hpiece
        rw [List.getElem?_eq_getElem hn]
        exact congrArg some hpiece
      · refine hrest.kept _ _ _ ?_
        rw [hat, if_pos ⟨rfl, rfl⟩]
    · obtain ⟨hreq, hin⟩ := hrest.requests r' hmem
      refine ⟨⟨⟨hreq.piece, hreq.block, hreq.missing, hreq.length⟩, ?_⟩, hin⟩
      have hfresh' := hreq.fresh
      rw [hat] at hfresh'
      by_cases hij : r'.pieceIndex = r.pieceIndex ∧ r'.blockIndex = r.blockIndex
      · rw [if_pos hij] at hfresh'
        cases hfresh'
      · rw [if_neg hij] at hfresh'
        exact hfresh'

/-- **What `requestsForPeer` does.** -/
theorem requestsForPeer_assigns (p : PeerId) (pl tl : ℕ) (clock : ℕ → ℕ) (limit : ℕ)
    (s : PieceScheduler) :
    Assigns p pl tl s (s.requestsForPeer p pl tl clock limit).1
      (s.requestsForPeer p pl tl clock limit).2 := by
  have h := requestsForPeer_induct p pl tl clock
    (P := fun u v rs => u.completedPieces.length = s.completedPieces.length →
      Assigns p pl tl u v rs)
    (fun u _ => Assigns.refl p pl tl u) limit s ?_
  · exact h rfl
  · intro available u t v slot r rs hslot _ hreq ih hlen
    refine Assigns.cons (hlen ▸ hslot) hreq (ih ?_)
    obtain ⟨-, -, -, -, -, -, -, rfl⟩ := requestSlot_eq_some hreq
    exact hlen

end Scan

/-! ### The peers a scheduler mentions -/

/-- A peer occurs in the scheduler: it owns a block in flight, or has a count, an availability or a
cursor. -/
def Mentions (s : PieceScheduler) (p : PeerId) : Prop :=
  (∃ i j x, s.inFlightAt i j = some x ∧ x.peerId = p) ∨ s.inFlightPerPeer.get? p ≠ none ∨
    s.peerAvailability.get? p ≠ none ∨ s.requestCursors.get? p ≠ none

theorem not_mentions_new (n : ℕ) (p : PeerId) : ¬ (new n).Mentions p := by
  rintro (⟨i, j, x, hx, -⟩ | h | h | h)
  · simp [new, inFlightAt] at hx
  · exact h rfl
  · exact h rfl
  · exact h rfl

theorem Mentions.of_takeBack {s : PieceScheduler} {i j : ℕ} {p : PeerId}
    (h : (s.takeBack i j).Mentions p) : s.Mentions p := by
  rw [Mentions, takeBack_eq] at h
  rcases h with ⟨i', j', x, hx, hp⟩ | h | h | h
  · have hx : (s.takeBack i j).inFlightAt i' j' = some x := hx
    rw [inFlightAt_takeBack] at hx
    split at hx
    · cases hx
    · exact Or.inl ⟨i', j', x, hx, hp⟩
  · refine Or.inr (Or.inl fun hnone => h ?_)
    change (s.takeBack i j).inFlightPerPeer.get? p = none
    by_cases hown : ∀ request, s.inFlightAt i j = some request → p ≠ request.peerId
    · rw [get?_takeBack_of_ne s hown, hnone]
    · simp only [not_forall, not_not] at hown
      obtain ⟨request, hat, rfl⟩ := hown
      rw [takeBack, hat, get?_decrementInFlight_self]
      change (s.inFlightPerPeer.get? request.peerId).bind _ = none
      rw [hnone]
      rfl
  · exact Or.inr (Or.inr (Or.inl h))
  · exact Or.inr (Or.inr (Or.inr h))

theorem Mentions.of_releasePeerRequest {s : PieceScheduler} {q : PeerId} {i offset : ℕ}
    {p : PeerId} (h : (s.releasePeerRequest q i offset).Mentions p) : s.Mentions p := by
  rw [releasePeerRequest_eq] at h
  split at h
  · exact h.of_takeBack
  · exact h

theorem Mentions.of_markBlockComplete {s : PieceScheduler} {i j n : ℕ} {p : PeerId}
    (h : (s.markBlockComplete i j n).1.Mentions p) : s.Mentions p := by
  rw [markBlockComplete_fst] at h
  exact h.of_takeBack

/-- A peer that leaves is no longer mentioned, and no other is mentioned anew. -/
theorem Mentions.of_peerDisconnected {s : PieceScheduler} {q p : PeerId}
    (h : (s.peerDisconnected q).Mentions p) : p ≠ q ∧ s.Mentions p := by
  rcases h with ⟨i, j, x, hx, rfl⟩ | h | h | h
  · rw [inFlightAt_peerDisconnected, Option.filter_eq_some_iff] at hx
    exact ⟨by simpa using hx.2, Or.inl ⟨i, j, x, hx.1, rfl⟩⟩
  · obtain ⟨v, hv⟩ := Option.ne_none_iff_exists'.1 h
    obtain ⟨hne, hget⟩ := HashMap.get?_of_get?_erase hv
    exact ⟨hne, Or.inr (Or.inl (by simp [hget]))⟩
  · obtain ⟨v, hv⟩ := Option.ne_none_iff_exists'.1 h
    obtain ⟨hne, hget⟩ := HashMap.get?_of_get?_erase hv
    exact ⟨hne, Or.inr (Or.inr (Or.inl (by simp [hget])))⟩
  · obtain ⟨v, hv⟩ := Option.ne_none_iff_exists'.1 h
    obtain ⟨hne, hget⟩ := HashMap.get?_of_get?_erase hv
    exact ⟨hne, Or.inr (Or.inr (Or.inr (by simp [hget])))⟩

theorem Mentions.of_updatePeerAvailability {s : PieceScheduler} {q : PeerId}
    {available : List Bool} {p : PeerId} (h : (s.updatePeerAvailability q available).Mentions p) :
    p = q ∨ s.Mentions p := by
  rcases h with h | h | h | h
  · exact Or.inr (Or.inl h)
  · exact Or.inr (Or.inr (Or.inl h))
  · by_cases hp : p = q
    · exact Or.inl hp
    · refine Or.inr (Or.inr (Or.inr (Or.inl ?_)))
      rwa [updatePeerAvailability, HashMap.get?_insert_of_ne hp] at h
  · exact Or.inr (Or.inr (Or.inr (Or.inr h)))

/-- Counting peers anew mentions only those that are counted. -/
theorem get?_foldl_countRequest_ne_none {peers : List PeerId} {m : HashMap PeerId ℕ} {p : PeerId}
    (h : (peers.foldl countRequest m).get? p ≠ none) : p ∈ peers ∨ m.get? p ≠ none := by
  induction peers generalizing m with
  | nil => exact Or.inr h
  | cons q peers ih =>
      rcases ih h with hmem | hget
      · exact Or.inl (List.mem_cons_of_mem _ hmem)
      · by_cases hp : p = q
        · exact Or.inl (hp ▸ List.mem_cons_self ..)
        · rw [countRequest, HashMap.get?_insert_of_ne hp] at hget
          exact Or.inr hget

theorem Mentions.of_releaseStaleRequests {s : PieceScheduler} {now timeout : ℕ} {p : PeerId}
    (h : (s.releaseStaleRequests now timeout).1.Mentions p) : s.Mentions p := by
  rcases h with ⟨i, j, x, hx, hp⟩ | h | h | h
  · rw [inFlightAt_releaseStaleRequests, Option.filter_eq_some_iff] at hx
    exact Or.inl ⟨i, j, x, hx.1, hp⟩
  · rcases get?_foldl_countRequest_ne_none h with hmem | hget
    · obtain ⟨x, hx, rfl⟩ := List.mem_map.1 hmem
      obtain ⟨i, j, hat⟩ := SlotTable.exists_at?_of_mem_values hx
      exact Or.inl ⟨i, j, x, hat, rfl⟩
    · exact absurd rfl hget
  · exact Or.inr (Or.inr (Or.inl h))
  · exact Or.inr (Or.inr (Or.inr h))

theorem Assigns.mentions {p : PeerId} {pl tl : ℕ} {s t : PieceScheduler}
    {rs : List BlockRequest} (h : Assigns p pl tl s t rs) {q : PeerId} (hq : t.Mentions q) :
    q = p ∨ s.Mentions q := by
  by_cases hne : q = p
  · exact Or.inl hne
  · right
    rcases hq with ⟨i, j, x, hx, rfl⟩ | hq | hq | hq
    · rcases h.added i j x hx with hold | ⟨hp, -⟩
      · exact Or.inl ⟨i, j, x, hold, rfl⟩
      · exact absurd hp hne
    · rw [h.counts q hne] at hq
      exact Or.inr (Or.inl hq)
    · rw [h.peerAvailability] at hq
      exact Or.inr (Or.inr (Or.inl hq))
    · rw [h.cursors q hne] at hq
      exact Or.inr (Or.inr (Or.inr hq))

end PieceScheduler

end Tortillas
