/-
**Which pieces a peer is known to have.**

A peer actor keeps a bit vector of the pieces that the remote has announced, and passes it on to the torrent
with `PeerReady`, where the scheduler looks up whom to ask.  The vector is shared: a `Have` sets a bit of it in
place, and the scheduler sees the bit at once; a `Bitfield` replaces the peer's vector by a new one, which the
scheduler has only when the next `PeerReady` has been handled.

A vector keeps its length.  The first one is empty, and a `Have` beyond the end of a vector is ignored, so that
nothing is known of a peer that never sends a `Bitfield`, whatever it announces.

What is known of a peer is of use when blocks are asked of it.  The scan for blocks goes by the pieces that the
scheduler knows, which are none when the torrent of a magnet link has just learned of its metadata.

Main definitions:

* `SharedVectors` — a peer actor, the vectors there have been, and the one the scheduler has;
* `SharedVectors.apply` — a message from the wire, or a `PeerReady` that is handled;
* `announcedPiece` — the pieces a peer has announced, by its messages;
* `HavesFit` — no announcement is beyond the end of the vector;
* `TorrentActor.HasVector` — the scheduler of a torrent has the vector that is known;
* `TorrentActor.Eligible` — a scan answers the free blocks of a piece;
* `TorrentActor.ScanReaches` — what it takes for that.

Main results:

* `PeerActor.pieces_handle` — what a message does to the vector;
* `SharedVectors.Follows.apply` — the vectors and the messages on their way follow the announcements;
* `known_availability` — **exactly when what is known is what was announced**;
* `have_without_bitfield_ignored` — a piece announced without a `Bitfield` is not known.
-/

import Tortillas.Completion
import Tortillas.Outstanding
import Tortillas.RequestScan

set_option relaxedAutoImplicit false
set_option autoImplicit false

namespace Tortillas

/-! ### Messages that leave the vector alone -/

namespace PeerActor

variable {a b : PeerActor} {env : PeerEnv}

theorem send_eq (a : PeerActor) (m : PeerMessages) (sent : Bool) :
    a.send m sent = { a with outbox := (a.send m sent).outbox } := by
  unfold send
  split <;> rfl

/-- Metadata concerns nothing but what is gathered, and what is sent. -/
def MetadataOnly (a b : PeerActor) : Prop :=
  b = { a with bep0009 := b.bep0009, info := b.info, outbox := b.outbox }

theorem MetadataOnly.refl (a : PeerActor) : MetadataOnly a a := rfl

theorem MetadataOnly.trans {a b c : PeerActor} (h₁ : MetadataOnly a b) (h₂ : MetadataOnly b c) :
    MetadataOnly a c := by
  unfold MetadataOnly at *
  rw [h₂, h₁]

theorem metadataOnly_send (a : PeerActor) (m : PeerMessages) (sent : Bool) :
    MetadataOnly a (a.send m sent) := by
  unfold MetadataOnly
  rw [send_eq]

theorem metadataOnly_requestMetadata (size : Option ℕ) (piece : ℕ) (env : PeerEnv) (a : PeerActor) :
    MetadataOnly a (a.requestMetadata size piece env) := by
  unfold requestMetadata
  cases size with
  | none =>
      dsimp only
      split
      · exact metadataOnly_send a _ _
      · exact .refl a
  | some size =>
      dsimp only
      have hsize : MetadataOnly a { a with info := { a.info with infoSize := size } } := rfl
      split
      · exact hsize.trans (metadataOnly_send _ _ _)
      · exact hsize

theorem metadataOnly_takeMetadata {m : ExtendedMessage} {metadata : Option Bytes}
    (h : a.takeMetadata m metadata env = some b) : MetadataOnly a b := by
  unfold takeMetadata at h
  cases metadata with
  | none =>
      cases h
      exact .refl a
  | some bytes =>
      dsimp only at h
      split at h
      · cases h
        exact .refl a
      · cases happend : a.info.appendToBytes bytes with
        | none =>
            rw [happend] at h
            cases h
            exact .refl a
        | some info =>
            simp only [happend] at h
            have hinfo : MetadataOnly a { a with info := info } := rfl
            split at h
            · cases h
              exact hinfo
            · cases hpiece : m.piece with
              | none => simp [hpiece] at h
              | some piece =>
                  simp only [hpiece] at h
                  split at h
                  · cases h
                  · cases h
                    exact hinfo.trans (metadataOnly_requestMetadata _ _ _ _)

theorem metadataOnly_beginMetadata (m : ExtendedMessage) (env : PeerEnv) (a : PeerActor) :
    MetadataOnly a (a.beginMetadata m env).1 := by
  unfold beginMetadata
  split
  · exact .refl a
  · rename_i id _
    have hset : MetadataOnly a { a with bep0009 := id } := rfl
    dsimp only
    split
    · exact hset
    · split
      · exact hset
      · split
        · dsimp only
          exact hset.trans (metadataOnly_requestMetadata _ _ _ _)
        · exact hset

theorem metadataOnly_offerInfoBytes (a : PeerActor) : MetadataOnly a a.offerInfoBytes := by
  unfold offerInfoBytes
  split
  · rfl
  · exact .refl a

/-- **An extended message concerns nothing but metadata.** -/
theorem metadataOnly_handleExtendedMessage {message : Option ExtendedMessage} {metadata : Option Bytes}
    (h : a.handleExtendedMessage message metadata env = some b) : MetadataOnly a b := by
  unfold handleExtendedMessage at h
  cases message with
  | none =>
      cases h
      exact metadataOnly_offerInfoBytes a
  | some m =>
      obtain ⟨a', htake, hb⟩ := Option.map_eq_some_iff.1 h
      have hbegin := (metadataOnly_takeMetadata htake).trans (metadataOnly_beginMetadata m env a')
      dsimp only at hb
      split at hb
      · rw [← hb]
        exact hbegin.trans (metadataOnly_offerInfoBytes _)
      · rw [← hb]
        exact hbegin

theorem MetadataOnly.pieces (h : MetadataOnly a b) : b.pieces = a.pieces := by
  rw [h]

theorem pieces_determineInterest (h : a.determineInterest env = some b) : b.pieces = a.pieces := by
  unfold determineInterest at h
  split at h
  · cases h
    rfl
  · split at h
    · cases h
      rw [send_eq]
    · cases h

theorem pieces_flushBlockRequests (env : PeerEnv) (a : PeerActor) :
    (a.flushBlockRequests env).pieces = a.pieces := by
  unfold flushBlockRequests
  generalize env.flushed.filter (· ∈ a.pendingBlockRequests) = keys
  induction keys generalizing a with
  | nil => rfl
  | cons key keys ih =>
      rw [List.foldl_cons, ih, send_eq]

/-- The vector after a message. -/
def piecesAfter (pieces : List Bool) : PeerMessages → List Bool
  | .bitfield bits => bits
  | .have index => if index.toNat < pieces.length then pieces.set index.toNat true else pieces
  | _ => pieces

/-- **What a message does to the vector.** -/
theorem pieces_handle {m : PeerMessages} (h : a.handle env m = some b) : b.pieces = piecesAfter a.pieces m := by
  cases m with
  | piece index offset data =>
      simp only [handle] at h
      split at h
      · cases h
        rfl
      · cases h
        rfl
  | unchoke =>
      cases h
      exact pieces_flushBlockRequests env { a with peerChoking := false }
  | «have» index =>
      simp only [handle] at h
      rw [piecesAfter]
      split at h
      · rename_i hlt
        rw [if_pos hlt]
        split at h
        · cases h
          rfl
        · exact pieces_determineInterest h
      · rename_i hge
        rw [if_neg hge]
        cases h
        rfl
  | request index offset length =>
      simp only [handle] at h
      split at h
      · cases h
        rfl
      · split at h
        · cases h
          rfl
        · split at h
          · cases h
          · cases h
            rfl
          · split at h
            · cases h
              rw [send_eq]
              rfl
            · cases h
  | extended extendedId message metadata =>
      simp only [handle] at h
      split at h
      · exact ((metadataOnly_send a _ _).trans (metadataOnly_handleExtendedMessage h)).pieces
      · exact (metadataOnly_handleExtendedMessage h).pieces
  | bitfield bits =>
      obtain ⟨a', hinterest, hb⟩ := Option.map_eq_some_iff.1 h
      rw [← hb]
      exact pieces_determineInterest hinterest
  | _ =>
      cases h
      rfl

end PeerActor

/-! ### Shared vectors -/

/-- How often a peer actor tells that it is ready. -/
def readyCount (events : List PeerEvent) : ℕ :=
  events.countP fun
    | .peerReady _ _ => true
    | _ => false

/-- A peer actor and the torrent, as far as the vectors go.  A vector is named by its place among all there
have been; the last one is that of the peer actor. -/
structure SharedVectors where
  actor : PeerActor
  vectors : List (List Bool)
  /-- The vectors of the `PeerReady` messages that have not been handled. -/
  inbox : List ℕ
  /-- The vector that the scheduler has for the peer. -/
  known : Option ℕ
  received : List PeerMessages

inductive VectorInput
  | receive (m : PeerMessages) (env : PeerEnv)
  /-- The torrent handles the next `PeerReady`. -/
  | peerReady

namespace SharedVectors

/-- The vector of the peer actor. -/
def current (s : SharedVectors) : ℕ := s.vectors.length - 1

/-- `Bitfield` brings a new vector; anything else changes the one there is. -/
def store (pieces : List Bool) (vectors : List (List Bool)) : PeerMessages → List (List Bool)
  | .bitfield _ => vectors ++ [pieces]
  | _ => vectors.set (vectors.length - 1) pieces

/-- The peer actor has handled a message. -/
def heard (m : PeerMessages) (a : PeerActor) (s : SharedVectors) : SharedVectors :=
  let vectors := store a.pieces s.vectors m
  { s with
    actor := a
    vectors := vectors
    inbox := s.inbox ++ List.replicate (readyCount a.told) (vectors.length - 1)
    received := s.received ++ [m] }

/-- What an input does; `none` when it cannot happen, or when the peer actor panics. -/
def apply (s : SharedVectors) : VectorInput → Option SharedVectors
  | .receive m env => ({ s.actor with outbox := [] }.handle env m).map fun a => s.heard m a
  | .peerReady =>
      match s.inbox with
      | [] => none
      | vector :: rest => some { s with inbox := rest, known := some vector }

/-- What the scheduler knows of the peer. -/
def availability (s : SharedVectors) : Option (List Bool) := s.known.bind fun vector => s.vectors[vector]?

/-- Whether the scheduler knows that the peer has a piece. -/
def knows (s : SharedVectors) (index : ℕ) : Bool := (s.availability.getD []).getD index false

end SharedVectors

/-- A peer actor as it starts: with an empty vector, of which it tells the torrent. -/
def vectorSystem : System SharedVectors VectorInput where
  init s := ∃ id, s = ⟨PeerActor.new id, [[]], [0], none, []⟩
  step s i t := s.apply i = some t

/-! ### Announcements -/

/-- The last `Bitfield`, and the `Have` messages since. -/
def sinceBitfield (received : List PeerMessages) : List Bool × List ℕ :=
  received.foldl (fun since m =>
    match m with
    | .bitfield bits => (bits, [])
    | .have index => (since.1, index.toNat :: since.2)
    | _ => since) ([], [])

/-- The peer has announced a piece: it is set in the last `Bitfield`, or there was a `Have` since. -/
def announcedPiece (received : List PeerMessages) (index : ℕ) : Bool :=
  (sinceBitfield received).1.getD index false || decide (index ∈ (sinceBitfield received).2)

/-- Every piece that was announced by a `Have` since the last `Bitfield` has a place in that. -/
def HavesFit (pieceCount : ℕ) (received : List PeerMessages) : Prop :=
  ∀ index ∈ (sinceBitfield received).2, index < pieceCount → index < (sinceBitfield received).1.length

/-! ### Asking for what was announced -/

namespace TorrentActor

variable {H : Type}

/-- The scheduler of the torrent has the vector that is known of the peer. -/
def HasVector (t : TorrentActor H) (s : SharedVectors) : Prop :=
  t.pieceScheduler.peerAvailability.get? s.actor.id = s.availability

/-- **The peer can be asked for a piece**: a scan with a large enough limit answers every block of it that is
neither received nor in flight. -/
def Eligible (t : TorrentActor H) (info : Info H) (p : PeerId) (index : ℕ) : Prop :=
  ∃ enough ≤ usizeMax, ∀ limit, enough ≤ limit → ∀ clock : ℕ → ℕ,
    ∀ j < divCeil (info.pieceLen index) blockSize, ¬ t.pieceScheduler.Taken index j →
      ∃ r ∈ (t.pieceScheduler.requestsForPeer p info.pieceLength.toNat info.totalLength clock limit).2,
        r.pieceIndex = index ∧ r.blockIndex = j

/-- **A scan comes across every block of a piece that is neither received nor in flight**: the scheduler knows pieces,
which have a length, and the number of the block is a number. -/
def ScanReaches (t : TorrentActor H) (info : Info H) (index : ℕ) : Prop :=
  ∀ j < divCeil (info.pieceLen index) blockSize, ¬ t.pieceScheduler.Taken index j →
    t.pieceScheduler.completedPieces ≠ [] ∧ 0 < info.pieceLength.toNat ∧
      index * divCeil info.pieceLength.toNat blockSize + j < usizeMax

variable {t : TorrentActor H} {info : Info H} {p : PeerId} {index : ℕ}

/-- What can be asked for is come across. -/
theorem Eligible.scanReaches (h : t.Eligible info p index) : t.ScanReaches info index := by
  intro j hj hfree
  obtain ⟨enough, -, henough⟩ := h
  obtain ⟨r, hr, rfl, rfl⟩ := henough enough le_rfl (fun _ => 0) j hj hfree
  exact PieceScheduler.of_mem_requestsForPeer hr

/-- **What is come across can be asked for** of a peer that is known to have it. -/
theorem ScanReaches.eligible (h : t.ScanReaches info index) (hbits : t.BitsInv) (hinfo : t.infoDict = some info)
    (hindex : index < info.pieceCount) (hmissing : t.bitfield.getD index false = false) {available : List Bool}
    (havailable : t.pieceScheduler.peerAvailability.get? p = some available)
    (hhas : available.getD index false = true) : t.Eligible info p index := by
  have hhas' : available[index]? = some true := by
    rw [List.getD_eq_getElem?_getD] at hhas
    cases hget : available[index]? with
    | none =>
        rw [hget] at hhas
        cases hhas
    | some bit =>
        rw [hget] at hhas
        exact congrArg some hhas
  refine ⟨PieceScheduler.totalSlots info.pieceLength.toNat info.totalLength t.pieceScheduler.completedPieces.length,
    PieceScheduler.totalSlots_le_usizeMax _ _ _, fun limit hlimit clock j hj hfree => ?_⟩
  obtain ⟨hne, hpl, hslot⟩ := h j hj hfree
  -- a scheduler that knows any piece agrees with the bitfield
  have hagree : t.SchedulerAgrees := by
    rcases hbits.scheduler with hagree | hunset
    · exact hagree
    · exact absurd hunset.bits hne
  have hlength : t.pieceScheduler.completedPieces.length = info.pieceCount := by
    have hfits := hbits.fits
    rw [BitfieldFits, pieceCount, hinfo, ← hagree.bits] at hfits
    exact hfits
  have hpiece : t.pieceScheduler.completedPieces[index]? = some false := by
    rw [← hagree.bits, List.getD_eq_getElem _ _ (hlength ▸ hindex)] at hmissing
    rw [List.getElem?_eq_getElem (hlength ▸ hindex), hmissing]
  have hnext := hagree.next
  rw [← hagree.bits] at hnext
  refine PieceScheduler.requestsForPeer_answers havailable hnext hlimit hpl hpiece hhas' ?_ hslot hfree
  rw [hlength]
  exact hj

end TorrentActor

/-! ### What is known -/

namespace SharedVectors

variable {s t : SharedVectors}

/-- The vector of the peer actor, as it follows from the messages. -/
def vectorOf (received : List PeerMessages) : List Bool := received.foldl PeerActor.piecesAfter []

/-- **The invariant**: the last vector is that of the peer actor, and it is on its way to the scheduler, if the
scheduler does not have it. -/
structure Follows (s : SharedVectors) : Prop where
  pieces : s.actor.pieces = vectorOf s.received
  last : s.vectors.getLast? = some s.actor.pieces
  onWay : (s.known.toList ++ s.inbox).getLast? = some s.current

/-- A `Bitfield` is passed on. -/
theorem readyCount_of_bitfield {a b : PeerActor} {env : PeerEnv} {bits : List Bool}
    (h : a.handle env (.bitfield bits) = some b) : 0 < readyCount b.told := by
  obtain ⟨a', -, hb⟩ := Option.map_eq_some_iff.1 h
  rw [← hb, PeerActor.notifyReady, PeerActor.told_tell, readyCount, List.countP_append]
  exact Nat.lt_of_lt_of_le Nat.zero_lt_one (Nat.le_add_left _ _)

theorem getLast?_set {α : Type} {l : List α} (hl : l ≠ []) (x : α) : (l.set (l.length - 1) x).getLast? = some x := by
  have hpos := List.length_pos_iff.2 hl
  rw [List.getLast?_eq_getElem?, List.length_set, List.getElem?_set_self (by omega)]

theorem getLast?_append_replicate {α : Type} (l : List α) {n : ℕ} (hn : 0 < n) (x : α) :
    (l ++ List.replicate n x).getLast? = some x := by
  have hlast : (List.replicate n x).getLast? = some x := by
    rw [List.getLast?_eq_getElem?, List.length_replicate, List.getElem?_replicate_of_lt (by omega)]
  rw [List.getLast?_append, hlast]
  rfl

/-- **A message keeps the invariant.** -/
theorem Follows.heard (hs : s.Follows) {m : PeerMessages} {env : PeerEnv} {a : PeerActor}
    (h : { s.actor with outbox := [] }.handle env m = some a) : (s.heard m a).Follows := by
  have hpieces := PeerActor.pieces_handle h
  have hne : s.vectors ≠ [] := by
    intro hnil
    have hlast := hs.last
    rw [hnil] at hlast
    cases hlast
  refine ⟨?_, ?_, ?_⟩
  · rw [SharedVectors.heard, vectorOf, List.foldl_append, ← vectorOf, ← hs.pieces]
    exact hpieces
  · cases m with
    | bitfield bits => exact List.getLast?_concat
    | _ => exact getLast?_set hne a.pieces
  · change (s.known.toList ++ (s.inbox ++ List.replicate (readyCount a.told) _)).getLast? = some _
    rw [← List.append_assoc]
    by_cases hready : 0 < readyCount a.told
    · exact getLast?_append_replicate _ hready _
    · -- without a `PeerReady` there was no `Bitfield`, and the vector is the one there was
      have hzero : readyCount a.told = 0 := Nat.eq_zero_of_not_pos hready
      rw [hzero, List.replicate_zero, List.append_nil, hs.onWay, current]
      cases m with
      | bitfield bits => exact absurd (readyCount_of_bitfield h) hready
      | _ =>
          rw [current, SharedVectors.heard, store]
          · rw [List.length_set]
          · exact nofun

theorem Follows.apply (hs : s.Follows) {i : VectorInput} (h : s.apply i = some t) : t.Follows := by
  cases i with
  | receive m env =>
      obtain ⟨a, ha, rfl⟩ := Option.map_eq_some_iff.1 h
      exact hs.heard ha
  | peerReady =>
      have honWay := hs.onWay
      rw [SharedVectors.apply] at h
      split at h
      · cases h
      · rename_i vector rest hinbox
        cases h
        refine ⟨hs.pieces, hs.last, ?_⟩
        rw [hinbox] at honWay
        -- the vector that is handled comes after the one there was
        rw [List.getLast?_append] at honWay
        cases hlast : (vector :: rest).getLast? with
        | none => cases rest <;> cases hlast
        | some last =>
            rw [hlast] at honWay
            exact hlast.trans honWay

theorem follows_of_reach {G : SharedVectors → VectorInput → Prop} (h : vectorSystem.Reach G s) : s.Follows := by
  refine h.invariant (I := Follows) ?_ ?_
  · rintro t ⟨id, rfl⟩
    exact ⟨rfl, rfl, rfl⟩
  · rintro t i u ht - hstep
    exact ht.apply hstep

/-- When all messages have been handled, the scheduler has the vector of the peer actor. -/
theorem Follows.availability_eq (hs : s.Follows) (hidle : s.inbox = []) :
    s.availability = some (vectorOf s.received) := by
  have honWay := hs.onWay
  rw [hidle, List.append_nil] at honWay
  cases hknown : s.known with
  | none =>
      rw [hknown] at honWay
      cases honWay
  | some vector =>
      rw [hknown] at honWay
      cases honWay
      rw [availability, hknown, ← hs.pieces, ← hs.last, List.getLast?_eq_getElem?]
      rfl

end SharedVectors

/-! ### What is known and what was announced -/

theorem sinceBitfield_concat (received : List PeerMessages) (m : PeerMessages) :
    sinceBitfield (received ++ [m]) =
      match m with
      | .bitfield bits => (bits, [])
      | .have index => ((sinceBitfield received).1, index.toNat :: (sinceBitfield received).2)
      | _ => sinceBitfield received := by
  rw [sinceBitfield, List.foldl_append]
  rfl

/-- **The vector holds what was announced and has a place in it.** -/
theorem vectorOf_spec (received : List PeerMessages) :
    (SharedVectors.vectorOf received).length = (sinceBitfield received).1.length ∧
      ∀ index, (SharedVectors.vectorOf received).getD index false = true ↔
        (sinceBitfield received).1.getD index false = true ∨
          index ∈ (sinceBitfield received).2 ∧ index < (sinceBitfield received).1.length := by
  induction received using List.reverseRecOn with
  | nil => exact ⟨rfl, fun index => by simp [SharedVectors.vectorOf, sinceBitfield]⟩
  | append_singleton received m ih =>
      obtain ⟨hlen, hbits⟩ := ih
      have hvector : SharedVectors.vectorOf (received ++ [m]) =
          PeerActor.piecesAfter (SharedVectors.vectorOf received) m := by
        rw [SharedVectors.vectorOf, List.foldl_append]
        rfl
      rw [hvector, sinceBitfield_concat]
      cases m with
      | bitfield bits => simp [PeerActor.piecesAfter]
      | «have» new =>
          rw [PeerActor.piecesAfter, hlen]
          dsimp only
          split
          · rename_i hlt
            refine ⟨by rw [List.length_set, hlen], fun index => ?_⟩
            by_cases heq : index = new.toNat
            · subst heq
              have hset : ((SharedVectors.vectorOf received).set new.toNat true).getD new.toNat false = true := by
                rw [List.getD_eq_getElem?_getD, List.getElem?_set_self (hlen ▸ hlt)]
                rfl
              exact ⟨fun _ => .inr ⟨List.mem_cons_self .., hlt⟩, fun _ => hset⟩
            · rw [List.getD_eq_getElem?_getD, List.getElem?_set_ne (Ne.symm heq), ← List.getD_eq_getElem?_getD,
                hbits, List.mem_cons, or_iff_right heq]
          · rename_i hge
            refine ⟨hlen, fun index => ?_⟩
            rw [hbits, List.mem_cons]
            constructor
            · rintro (h | ⟨h, hlt⟩)
              · exact .inl h
              · exact .inr ⟨.inr h, hlt⟩
            · rintro (h | ⟨rfl | h, hlt⟩)
              · exact .inl h
              · exact absurd hlt hge
              · exact .inr ⟨h, hlt⟩
      | _ => exact ⟨hlen, hbits⟩

section Runs

variable {H : Type} [DecidableEq H] {c : Codec H}

/-- **Known availability is what was announced exactly if no `Have` is beyond the end of the last `Bitfield`.**
When the messages to the torrent have been handled, the pieces that the scheduler knows of are those that were
announced, and the peer can be asked for those of them that the torrent lacks, exactly if the pieces that were
announced by `Have` since the last `Bitfield` have a place in that, and a scan comes across the blocks of the pieces
that were announced and are lacked. -/
theorem known_availability {s : SharedVectors} (h : vectorSystem.Reach (fun _ _ => True) s)
    (hidle : s.inbox = []) {t : TorrentActor H} (ht : (torrentSystem c).Reach (fun _ _ => True) t) {info : Info H}
    (hinfo : t.infoDict = some info) (hvector : t.HasVector s) :
    ((∀ index < info.pieceCount, s.knows index = announcedPiece s.received index) ∧
      ∀ index < info.pieceCount, announcedPiece s.received index = true → t.bitfield.getD index false = false →
        t.Eligible info s.actor.id index) ↔
      HavesFit info.pieceCount s.received ∧
        ∀ index < info.pieceCount, announcedPiece s.received index = true → t.bitfield.getD index false = false →
          t.ScanReaches info index := by
  have havailable := (SharedVectors.follows_of_reach h).availability_eq hidle
  obtain ⟨-, hbits⟩ := vectorOf_spec s.received
  have hknows : ∀ index, s.knows index = true ↔ (sinceBitfield s.received).1.getD index false = true ∨
      index ∈ (sinceBitfield s.received).2 ∧ index < (sinceBitfield s.received).1.length := by
    intro index
    rw [SharedVectors.knows, havailable]
    exact hbits index
  have hannounced : ∀ index, announcedPiece s.received index = true ↔
      (sinceBitfield s.received).1.getD index false = true ∨ index ∈ (sinceBitfield s.received).2 := by
    intro index
    rw [announcedPiece, Bool.or_eq_true, decide_eq_true_iff]
  constructor
  · rintro ⟨hknown, heligible⟩
    refine ⟨fun index hmem hlt => ?_,
      fun index hlt hann hmissing => (heligible index hlt hann hmissing).scanReaches⟩
    have htrue : s.knows index = true := by
      rw [hknown index hlt, hannounced]
      exact .inr hmem
    rcases (hknows index).1 htrue with hset | ⟨-, hlt⟩
    · by_contra hge
      rw [List.getD_eq_getElem?_getD, List.getElem?_eq_none (not_lt.1 hge)] at hset
      cases hset
    · exact hlt
  · rintro ⟨hfit, hreaches⟩
    have hsame : ∀ index < info.pieceCount, s.knows index = announcedPiece s.received index := by
      intro index hlt
      rw [Bool.eq_iff_iff, hknows, hannounced]
      constructor
      · rintro (hset | ⟨hmem, -⟩)
        · exact .inl hset
        · exact .inr hmem
      · rintro (hset | hmem)
        · exact .inl hset
        · exact .inr ⟨hmem, hfit index hmem hlt⟩
    refine ⟨hsame, fun index hlt hann hmissing => ?_⟩
    have htrue := hsame index hlt
    rw [SharedVectors.knows, havailable, hann] at htrue
    exact (hreaches index hlt hann hmissing).eligible (TorrentActor.bitsInv_of_reach ht) hinfo hlt hmissing
      (hvector.trans havailable) htrue

end Runs

namespace Sample

def newPeer : SharedVectors := ⟨PeerActor.new peer, [[]], [0], none, []⟩

def vectorEnv : PeerEnv := ⟨true, [], some true, some true, none⟩

/-- A peer sends a `Bitfield` and then a `Have`. -/
def bitfieldFirst : List VectorInput :=
  [.peerReady, .receive (.bitfield [false]) vectorEnv, .peerReady, .receive (.have 0) vectorEnv]

/-- What a torrent learns of the same peer, before it starts. -/
def introducing : List (TorrentMessage codec) :=
  [.peerConnected (some peer) 0, .peerReady peer [] true fillEnv, .peerReady peer [false] true fillEnv,
    .sharedHave peer 0]

theorem restoresOwn_of_mem_introducing {m : TorrentMessage codec} (hm : m ∈ introducing)
    (s : TorrentActor Bytes) : s.RestoresOwn m := by
  simp only [introducing, List.mem_cons, List.not_mem_nil, or_false] at hm
  rcases hm with rfl | rfl | rfl | rfl <;> trivial

def introduced : TorrentActor Bytes := run (fromFile .inFile) introducing

/-- A peer has no piece when it connects, and then gets one. -/
def haveOnly : List VectorInput := [.peerReady, .receive (.have 0) vectorEnv]

/-- What comes of a list of inputs, when it can be seen that they can happen. -/
theorem exists_vectors (inputs : List VectorInput) {P : SharedVectors → Bool}
    (h : (inputs.foldlM SharedVectors.apply newPeer).any P = true) :
    ∃ s, vectorSystem.Reach (fun _ _ => True) s ∧ P s = true :=
  System.Reach.exists_foldlM (S := vectorSystem) (fun _ _ _ h => h) (.init ⟨peer, rfl⟩) inputs h

end Sample

/-- A piece that was announced after a `Bitfield` is known, and the peer can be asked for it. -/
theorem known_availability_sample :
    ∃ s, vectorSystem.Reach (fun _ _ => True) s ∧ announcedPiece s.received 0 = true ∧ s.knows 0 = true ∧
      Sample.introduced.Eligible Sample.info s.actor.id 0 ∧ ¬ Sample.introduced.pieceScheduler.Taken 0 0 := by
  obtain ⟨s, hs, hP⟩ := Sample.exists_vectors Sample.bitfieldFirst
    (P := fun s => decide (s.inbox = [] ∧ sinceBitfield s.received = ([false], [0]) ∧ s.actor.id = Sample.peer ∧
      s.availability = some [true])) (by decide +kernel)
  obtain ⟨hidle, hsince, hid, havailable⟩ := of_decide_eq_true hP
  have hfit : HavesFit Sample.info.pieceCount s.received := by
    rw [HavesFit, hsince]
    decide
  have hann : announcedPiece s.received 0 = true := by
    rw [announcedPiece, hsince]
    rfl
  have hvector : Sample.introduced.HasVector s := by
    rw [TorrentActor.HasVector, hid, havailable]
    decide +kernel
  have hreach : (torrentSystem Sample.codec).Reach (fun _ _ => True) Sample.introduced :=
    Sample.reach_run _ (.init (Sample.init_fromFile .inFile)) fun _ => Sample.restoresOwn_of_mem_introducing
  have hreaches : ∀ index < Sample.info.pieceCount, Sample.introduced.ScanReaches Sample.info index := by
    intro index hindex j hj _
    have hzero : index = 0 := Nat.lt_one_iff.1 hindex
    subst hzero
    have hblocks : divCeil (Sample.info.pieceLen 0) blockSize = 1 := by decide
    have hblock : j = 0 := by omega
    subst hblock
    exact ⟨by decide +kernel, by decide, by decide⟩
  obtain ⟨hknows, heligible⟩ := (known_availability hs hidle hreach rfl hvector).2
    ⟨hfit, fun index hlt _ _ => hreaches index hlt⟩
  refine ⟨s, hs, hann, (hknows 0 (by decide)).trans hann, heligible 0 (by decide) hann (by decide +kernel), ?_⟩
  rintro (htaken | htaken)
  · exact absurd (by decide +kernel) htaken
  · exact absurd htaken (by decide +kernel)

/-- **A piece that is announced without a `Bitfield` is not known.** -/
theorem have_without_bitfield_ignored :
    ∃ s, vectorSystem.Reach (fun _ _ => True) s ∧ s.inbox = [] ∧ announcedPiece s.received 0 = true ∧
      s.availability = some [] ∧ s.knows 0 = false := by
  obtain ⟨s, hs, hP⟩ := Sample.exists_vectors Sample.haveOnly
    (P := fun s => decide (s.inbox = [] ∧ announcedPiece s.received 0 = true ∧ s.availability = some [] ∧
      s.knows 0 = false)) (by decide +kernel)
  exact ⟨s, hs, of_decide_eq_true hP⟩

end Tortillas
