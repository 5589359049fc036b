/-
**What a torrent serves.**

`torrent/messages.rs`: a peer asks for a block by three numbers of its own choice.  `request_piece` checks them against
the metadata, looks at the bit of the piece, and reads the range from the files: nothing is hashed when a block is
served.  That what is served is right rests on all that has happened to the files since the piece was verified.

A peer is told a block at the end of a way through two actors and a connection.  What holds of every answer of a
torrent holds of every block that the other torrent is told.

Main definitions:

* `Info.Describes` — the content that metadata is of;
* `contentBlock` — a range of it;
* `Vouched` — an answer that some run of a torrent gives.

Main results:

* `TorrentActor.requestPiece_eq` — when a block is read for a peer;
* `served_blocks_verified` — **every block that is served is of the content**, and every block of a complete piece is
  served;
* `told_blocks_of_content` — **every block that is told is of the content**, between two torrents of one metadata.
-/

import Tortillas.Verified
import Tortillas.InFileStorage
import Tortillas.Arithmetic
import Tortillas.ConversationBlocks

set_option relaxedAutoImplicit false
set_option autoImplicit false

namespace Tortillas

variable {H : Type}

/-! ### The content -/

/-- The metadata is of this content, given piece by piece. -/
structure Info.Describes (c : Codec H) (info : Info H) (pieces : ℕ → Bytes) : Prop where
  hash : ∀ index hash, info.pieces[index]? = some hash → c.sha1 (pieces index) = hash
  length : ∀ index, index < info.pieceCount → (pieces index).length = info.pieceLen index

/-- A block of the content. -/
def contentBlock (pieces : ℕ → Bytes) (key : BlockKey) : Bytes :=
  ((pieces key.1).drop key.2.1).take key.2.2

theorem length_contentBlock {pieces : ℕ → Bytes} {key : BlockKey}
    (h : key.2.1 + key.2.2 ≤ (pieces key.1).length) : (contentBlock pieces key).length = key.2.2 := by
  rw [contentBlock, List.length_take, List.length_drop]
  omega

/-! ### Reading a part of a piece -/

theorem readAt_inside {data : Bytes} {offset length : ℕ} (h : offset + length ≤ data.length) :
    readAt data offset length = some ((data.drop offset).take length) := by
  unfold readAt
  split
  · rename_i hzero
    rw [hzero, List.take_zero]
  · rfl

namespace FilePieceManager

variable {info : Info H} {base : Path} {fs : FileStore Path} {index : ℕ}

/-- What is read of a part is the part of what is read. -/
theorem readPieceRange_inside {n offset length : ℕ} {data : Bytes}
    (h : readPieceRange ⟨some base, some info⟩ fs index 0 n = some data) (hpos : 0 < length)
    (hinside : offset + length ≤ n) :
    readPieceRange ⟨some base, some info⟩ fs index offset length =
      some ((data.drop offset).take length) := by
  obtain ⟨hwhole, hn, hbytes⟩ := (readPieceRange_eq_some_iff (by omega)).1 h
  refine (readPieceRange_eq_some_iff hpos).2 ⟨hwhole, by omega, ?_⟩
  rw [List.map_take, List.map_drop, ← hbytes, ← List.map_drop, ← List.map_take, List.drop_range',
    List.take_range'_of_length_ge (by omega), Nat.mul_one, Nat.add_zero]

/-- A manager that has not been told the metadata reads nothing. -/
theorem readPieceRange_of_info_none {m : FilePieceManager H} (hnone : m.info = none) {offset length : ℕ}
    (hpos : 0 < length) : m.readPieceRange fs index offset length = none := by
  have hsegs : pieceRangeSegments m.info index offset length = .err "info not set" := by
    rw [pieceRangeSegments, if_neg hpos.ne', hnone]
    rfl
  rw [readPieceRange, hsegs]
  cases m.path <;> rfl

end FilePieceManager

namespace TorrentActor

variable {c : Codec H} {s : TorrentActor H} {info : Info H}

/-- **A block of a stored piece is read as it is stored.** -/
theorem readPieceBlock_inside (hdict : s.infoDict = some info) (hcons : info.Consistent)
    (hknows : s.ManagerKnows) {index : ℕ} {hash : H} {data : Bytes}
    (hhash : info.pieces[index]? = some hash) (hstored : s.storedPiece c info index hash = some data)
    (hlen : data.length = info.pieceLen index) {offset length : ℕ} (hpos : 0 < length)
    (hinside : offset + length ≤ info.pieceLen index) :
    (∀ found, s.readPieceBlock c index offset length = some found →
      found = (data.drop offset).take length) ∧
    (CanRead s → s.readPieceBlock c index offset length = some ((data.drop offset).take length)) := by
  have hindex : index < info.pieceCount := (List.getElem?_eq_some_iff.1 hhash).1
  unfold storedPiece at hstored
  unfold readPieceBlock
  cases hst : s.pieceStorage with
  | disk dir =>
      rw [hst] at hstored
      have hfile : s.disk (pieceFile c dir hash) = some data := hstored
      simp only [getPiecePath, hdict, hst, hhash, Option.map_some, FileStore.read, hfile,
        Option.bind_some, readAt_inside (show offset + length ≤ data.length by omega)]
      exact ⟨fun found h => (Option.some.inj h).symm, fun _ => trivial⟩
  | inFile =>
      rw [hst] at hstored
      cases hm : s.pieceManager with
      | custom =>
          rw [hm] at hstored
          cases hstored
      | default m =>
          rw [hm] at hstored
          rcases hknows m hm with hnone | hsome
          · refine ⟨fun found hfound => ?_, fun hcan => absurd hnone (hcan hst m hm)⟩
            dsimp only at hfound
            rw [FilePieceManager.readPieceRange_of_info_none hnone hpos] at hfound
            cases hfound
          · rw [hdict] at hsome
            obtain ⟨path, hinfo⟩ : ∃ path, m = ⟨path, some info⟩ := ⟨m.path, by rw [← hsome]⟩
            subst hinfo
            have hread := readPieceRange_of_stored hcons rfl hindex hstored
            cases path with
            | none => cases hread
            | some base =>
                have hpart := FilePieceManager.readPieceRange_inside hread hpos hinside
                exact ⟨fun found h => Option.some.inj (h.symm.trans hpart), fun _ => hpart⟩

/-! ### Serving -/

/-- The checks on a block, in one. -/
theorem servable_eq (hpos : 0 < info.pieceLength.toNat) (index offset length : ℕ) :
    servable info index offset length = .ok (decide (0 < length ∧ length ≤ blockSize ∧
      index < info.pieceCount ∧ offset + length ≤ info.pieceLen index)) := by
  by_cases h : 0 < length ∧ length ≤ blockSize ∧ index < info.pieceCount ∧
      offset + length ≤ info.pieceLen index
  · rw [servable_eq_true hpos h.2.2.1 h.1 h.2.1 h.2.2.2, decide_eq_true h]
  · rw [decide_eq_false h, servable]
    have hlen := concreteLength_eq hpos index
    split
    · rfl
    · split
      · rfl
      · split
        · rfl
        · rw [hlen, Outcome.ok_bind]
          split
          · rfl
          · rw [if_pos]
            by_contra hfits
            exact h (by omega)

/-- **When a block is read for a peer**: it is neither empty nor larger than a block, it lies in its piece, and the
piece is complete. -/
theorem requestPiece_eq (hdict : s.infoDict = some info) (hpos : 0 < info.pieceLength.toNat)
    (index offset length : ℕ) :
    s.requestPiece c index offset length = .ok (index, offset,
      if 0 < length ∧ length ≤ blockSize ∧ index < info.pieceCount ∧
          offset + length ≤ info.pieceLen index ∧ s.bitfield[index]? = some true then
        s.readPieceBlock c index offset length
      else none) := by
  have hbit : s.bitfield.getD index false = true ↔ s.bitfield[index]? = some true := by
    rw [List.getD_eq_getElem?_getD]
    cases s.bitfield[index]? <;> simp
  rw [requestPiece, hdict]
  simp only [servable_eq hpos, Outcome.ok_bind, Bool.and_eq_true, decide_eq_true_eq, hbit, and_assoc]
  split <;> rfl

end TorrentActor

/-! ### Every block that is served -/

section Served

variable [DecidableEq H] {c : Codec H} {info : Info H} {pieces : ℕ → Bytes}

/-- The steps of a torrent that overwrites no verified data. -/
def Careful (s : TorrentActor H) (i : TorrentActor.Input c) : Prop :=
  ¬ Overwrites s i ∧ ¬ RestoresUnverified s i

/-- What is read of a complete piece is its content. -/
theorem TorrentActor.readPieceBlock_of_careful (hsha : Function.Injective c.sha1)
    (hcons : info.Consistent) (hdescribes : info.Describes c pieces) {s : TorrentActor H}
    (h : (torrentSystem c).Reach Careful s) (hdict : s.infoDict = some info) {key : BlockKey}
    (hpos : 0 < key.2.2) (hinside : key.2.1 + key.2.2 ≤ info.pieceLen key.1)
    (hbit : s.bitfield[key.1]? = some true) :
    (∀ found, s.readPieceBlock c key.1 key.2.1 key.2.2 = some found → found = contentBlock pieces key) ∧
    (CanRead s → s.readPieceBlock c key.1 key.2.1 key.2.2 = some (contentBlock pieces key)) := by
  have hinv := TorrentActor.storageInv_of_reach h
  obtain ⟨hash, data, hhash, hstored, hmatch⟩ := hinv.stored info key.1 hdict hbit
  -- no other bytes have this hash
  have hdata : data = pieces key.1 := hsha (hmatch.trans (hdescribes.hash key.1 hash hhash).symm)
  have hlen := hdescribes.length key.1 (List.getElem?_eq_some_iff.1 hhash).1
  rw [← hdata] at hlen
  rw [contentBlock, ← hdata]
  exact TorrentActor.readPieceBlock_inside hdict hcons hinv.knows hhash hstored hlen hpos hinside

/-- **Every block that a torrent serves is of the content**, whatever it is asked for, in every run in which no block
overwrites verified data and snapshots are restored after full verification.  And where the files can be read, a
request is answered with a block exactly if the block is neither empty nor larger than 16 KiB, lies in its piece, and
the piece is complete. -/
theorem served_blocks_verified (hsha : Function.Injective c.sha1) (hcons : info.Consistent)
    (hdescribes : info.Describes c pieces) {s : TorrentActor H}
    (h : (torrentSystem c).Reach Careful s) (hdict : s.infoDict = some info) (key : BlockKey) :
    ∃ answer, s.requestPiece c key.1 key.2.1 key.2.2 = .ok (key.1, key.2.1, answer) ∧
      (∀ data, answer = some data → data = contentBlock pieces key ∧ data.length = key.2.2) ∧
      (CanRead s → (answer.isSome ↔ 0 < key.2.2 ∧ key.2.2 ≤ blockSize ∧
        key.2.1 + key.2.2 ≤ info.pieceLen key.1 ∧ s.bitfield[key.1]? = some true)) := by
  refine ⟨_, TorrentActor.requestPiece_eq hdict hcons.pos key.1 key.2.1 key.2.2, ?_, ?_⟩
  · intro data hanswer
    split at hanswer
    · rename_i hserved
      obtain ⟨hpos, -, hindex, hinside, hbit⟩ := hserved
      have hdata := (TorrentActor.readPieceBlock_of_careful hsha hcons hdescribes h hdict hpos
        hinside hbit).1 data hanswer
      refine ⟨hdata, ?_⟩
      rw [hdata, length_contentBlock]
      rw [hdescribes.length key.1 hindex]
      exact hinside
    · cases hanswer
  · intro hcan
    constructor
    · intro hsome
      split at hsome
      · rename_i hserved
        exact ⟨hserved.1, hserved.2.1, hserved.2.2.2.1, hserved.2.2.2.2⟩
      · cases hsome
    · rintro ⟨hpos, hblock, hinside, hbit⟩
      have hall : (torrentSystem c).Reach (fun _ _ => True) s := h.mono fun _ _ _ => trivial
      have hindex : key.1 < info.pieceCount := by
        rw [← (schedulerFits_of_reach hall hdict).2]
        exact (List.getElem?_eq_some_iff.1 hbit).1
      rw [if_pos ⟨hpos, hblock, hindex, hinside, hbit⟩,
        (TorrentActor.readPieceBlock_of_careful hsha hcons hdescribes h hdict hpos hinside hbit).2 hcan]
      rfl

/-! ### Every block that is told -/

/-- Some torrent of this metadata that overwrites no verified data would answer a request like this. -/
def Vouched (c : Codec H) (info : Info H) (_ : Side) (key : BlockKey) (data : Bytes) : Prop :=
  ∃ s, (torrentSystem c).Reach Careful s ∧ s.infoDict = some info ∧
    s.requestPiece c key.1 key.2.1 key.2.2 = .ok (key.1, key.2.1, some data)

/-- What some torrent would answer is of the content. -/
theorem Vouched.eq_contentBlock (hsha : Function.Injective c.sha1) (hcons : info.Consistent)
    (hdescribes : info.Describes c pieces) {side : Side} {key : BlockKey} {data : Bytes}
    (h : Vouched c info side key data) :
    data = contentBlock pieces key ∧ data.length = key.2.2 ∧
      key.2.1 + key.2.2 ≤ info.pieceLen key.1 := by
  obtain ⟨s, hs, hdict, hanswer⟩ := h
  rw [TorrentActor.requestPiece_eq hdict hcons.pos] at hanswer
  split at hanswer
  · rename_i hserved
    obtain ⟨hpos, -, hindex, hinside, hbit⟩ := hserved
    have hread : s.readPieceBlock c key.1 key.2.1 key.2.2 = some data := by simpa using hanswer
    have hdata := (TorrentActor.readPieceBlock_of_careful hsha hcons hdescribes hs hdict hpos
      hinside hbit).1 data hread
    refine ⟨hdata, ?_, hinside⟩
    rw [hdata, length_contentBlock]
    rw [hdescribes.length key.1 hindex]
    exact hinside
  · simp at hanswer

/-- **Every block that a torrent is told is of the content**: between two actors whose torrents are of one metadata and
have overwritten no verified data, whatever the two command, however the answers are delayed, and whatever fails, a
block that is told has been asked for, lies in its piece, and is that range of the content. -/
theorem told_blocks_of_content (hsha : Function.Injective c.sha1) (hcons : info.Consistent)
    (hdescribes : info.Describes c pieces) (id : Side → PeerId) {s : Conversation}
    (h : (conversationSystem id).Reach (Conversation.Under (Answers (Vouched c info))) s) (side : Side) :
    ∀ block ∈ s.blocksTold side, keyOf block ∈ s.keysAsked side ∧
      block.2 = contentBlock pieces (keyOf block) ∧
      block.1.2 + block.2.length ≤ info.pieceLen block.1.1 := by
  intro block hblock
  obtain ⟨key, hposition, hvouched⟩ := Conversation.answers_of_told h side block hblock
  obtain ⟨hdata, hlength, hinside⟩ := hvouched.eq_contentBlock hsha hcons hdescribes
  have hkey : key = keyOf block := by
    rw [keyOf, ← hposition, hlength]
    rfl
  rw [hkey] at hdata hinside
  have hall : (conversationSystem id).Reach (fun _ _ => True) s := h.mono fun _ _ _ => trivial
  exact ⟨(Conversation.exchange_of_reach hall side).asked block hblock, hdata, hinside⟩

end Served

/-! ### A byte that is served -/

namespace Sample

/-- The sample torrent is of one byte. -/
def sevenContent (_ : ℕ) : Bytes := [7]

theorem describes_sevenContent : info.Describes codec sevenContent := by
  constructor
  · intro index hash hhash
    cases index with
    | zero =>
        cases hhash
        rfl
    | succ index => cases hhash
  · intro index hindex
    cases index with
    | zero => decide
    | succ index => exact absurd hindex (by simp [Info.pieceCount, info])

/-- The torrent has its byte, and nothing has been overwritten. -/
theorem reach_complete : (torrentSystem codec).Reach Careful complete := by
  have hclear : ∀ j : ℕ, (fromFile .inFile).bitfield[j]? ≠ some true := by
    intro j hj
    have hmem := List.mem_of_getElem? hj
    simp [fromFile, fromInfo] at hmem
  refine reach_step (.incomingPiece peer 0 0 [7] blockEnv) (.init (init_fromFile .inFile)) ⟨?_, id⟩ trivial
  rintro ⟨info, n, -, hharm⟩
  refine hharm ⟨hclear 0, fun j hj => absurd hj (hclear j), ?_⟩
  rintro j - dir m base segs hash ⟨⟩

theorem vouched_seven (side : Side) : Vouched codec info side (0, 0, 1) [7] :=
  ⟨complete, reach_complete, rfl, by decide +kernel⟩

/-- Whatever is asked for is the byte, and so is the answer. -/
def OnlySeven (_ : Side) (_ : Party) : PartyInput → Prop
  | .hear m env => ∀ key ∈ m.requested?, key = (0, 0, 1) ∧ ∀ data ∈ env.requestPiece.join, data = [7]
  | _ => True

instance (side : Side) (p : Party) : DecidablePred (OnlySeven side p)
  | .hear m env => inferInstanceAs (Decidable (∀ key ∈ m.requested?,
      key = (0, 0, 1) ∧ ∀ data ∈ env.requestPiece.join, data = [7]))
  | .command _ _ => inferInstanceAs (Decidable True)
  | .start _ => inferInstanceAs (Decidable True)
  | .startFailed => inferInstanceAs (Decidable True)
  | .keepAlive => inferInstanceAs (Decidable True)
  | .timeout => inferInstanceAs (Decidable True)
  | .stop => inferInstanceAs (Decidable True)

instance (s : Conversation) (i : Side × SideInput) : Decidable (Conversation.Under OnlySeven s i) :=
  Option.decidableForallMem (i.2.partyInput (s.wire i.1.opposite).head?)

theorem OnlySeven.answers {side : Side} {p : Party} {i : PartyInput} (h : OnlySeven side p i) :
    Answers (Vouched codec info) side p i := by
  cases i with
  | hear m env =>
      intro key hkey data hdata
      obtain ⟨rfl, hseven⟩ := h key hkey
      rw [hseven data (by simp [hdata])]
      exact vouched_seven side
  | _ => trivial

/-- The conversation in which the byte is asked for and given. -/
theorem exists_sevenTold : ∃ s, (conversationSystem fun _ => .ofId Sample.announced).Reach
    (Conversation.Under (Answers (Vouched codec info))) s ∧ byteHasCome s = true := by
  obtain ⟨s, hreach, hs⟩ : ∃ s, (conversationSystem fun _ => .ofId Sample.announced).Reach
      (Conversation.Under OnlySeven) s ∧ byteHasCome s = true :=
    System.Reach.exists_guarded (f := fun s i => s.step i.1 i.2) (fun _ _ _ h => h) (.init rfl) oneByte rfl
  exact ⟨s, hreach.mono fun t i hi j hj => (hi j hj).answers, hs⟩

end Sample

open Sample in
/-- The sample torrent serves its byte. -/
theorem served_blocks_verified_sample :
    ∃ answer, complete.requestPiece codec 0 0 1 = .ok (0, 0, answer) ∧ answer = some [7] := by
  obtain ⟨answer, hanswer, hdata, hserved⟩ := served_blocks_verified Function.injective_id
    info_describes.1 describes_sevenContent reach_complete rfl (0, 0, 1)
  refine ⟨answer, hanswer, ?_⟩
  have hsome : answer.isSome := by
    refine (hserved fun _ m hm => ?_).2 ⟨by decide, by decide, by decide, by decide +kernel⟩
    cases hm
    exact Option.some_ne_none _
  obtain ⟨data, rfl⟩ := Option.isSome_iff_exists.1 hsome
  rw [(hdata data rfl).1]
  rfl

open Sample in
/-- The byte that the left torrent is told is of the content. -/
theorem told_blocks_of_content_sample :
    ∃ s, (conversationSystem fun _ => .ofId Sample.announced).Reach
        (Conversation.Under (Answers (Vouched codec info))) s ∧
      s.blocksTold .left = [((0, 0), [7])] ∧
      ∀ block ∈ s.blocksTold .left, block.2 = contentBlock sevenContent (keyOf block) := by
  obtain ⟨s, hreach, hs⟩ := exists_sevenTold
  simp only [byteHasCome, Bool.and_eq_true, decide_eq_true_eq] at hs
  refine ⟨s, hreach, hs.1.2, fun block hblock => ?_⟩
  exact (told_blocks_of_content Function.injective_id info_describes.1 describes_sevenContent _ hreach
    .left block hblock).2.1

end Tortillas
