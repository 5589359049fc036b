/-
**What is complete: the bitfield and the scheduler.**

Which pieces are complete is kept twice, in the torrent's bitfield and in the scheduler, and four
handlers write it: starting, metadata resolution, restoring and completing a piece.  All of them
keep the bitfield as long as the metadata says.  All but metadata resolution also keep the two
copies equal: resolving the metadata of a magnet link gives the torrent a new bitfield and leaves
the scheduler without pieces.

Main definitions:

* `TorrentActor.BitfieldFits` — the bitfield has a bit for every piece of the metadata;
* `TorrentActor.SchedulerAgrees` — the scheduler has the same bits, and knows the first clear one;
* `TorrentActor.SchedulerUnset` — the scheduler has no pieces at all;
* `ResolvesPieces` — a message that resolves metadata with at least one piece.

Main results:

* `TorrentActor.bitsInv_of_reach` — in every run the bitfield fits, and the scheduler agrees or is
  unset;
* `scheduler_agrees_unless_metadata_resolves` — in every run without the resolution of metadata
  with pieces the two agree.
-/

import Tortillas.SchedulerInvariant
import Tortillas.TorrentFrames

set_option relaxedAutoImplicit false
set_option autoImplicit false

namespace Tortillas

namespace TorrentActor

variable {H : Type}

/-- The bitfield has a bit for every piece of the metadata. -/
def BitfieldFits (s : TorrentActor H) : Prop := s.bitfield.length = s.pieceCount

/-- The scheduler has the bits of the bitfield, and knows the first that is clear. -/
structure SchedulerAgrees (s : TorrentActor H) : Prop where
  bits : s.pieceScheduler.completedPieces = s.bitfield
  next : IsFirstIncomplete s.bitfield s.pieceScheduler.nextPiece

/-- The scheduler has no pieces. -/
structure SchedulerUnset (s : TorrentActor H) : Prop where
  bits : s.pieceScheduler.completedPieces = []
  next : s.pieceScheduler.nextPiece = 0

/-- Two states with the same metadata and the same complete pieces. -/
structure SamePieces (s t : TorrentActor H) : Prop where
  bitfield : t.bitfield = s.bitfield
  infoDict : t.infoDict = s.infoDict
  completedPieces : t.pieceScheduler.completedPieces = s.pieceScheduler.completedPieces
  nextPiece : t.pieceScheduler.nextPiece = s.pieceScheduler.nextPiece

section Frames

variable {s t u : TorrentActor H}

theorem SameBits.toPieces (h : SameBits s t) : SamePieces s t :=
  ⟨h.bitfield, h.infoDict, h.completedPieces, h.nextPiece⟩

theorem SamePieces.trans (h₁ : SamePieces s t) (h₂ : SamePieces t u) : SamePieces s u :=
  ⟨h₂.bitfield.trans h₁.bitfield, h₂.infoDict.trans h₁.infoDict,
    h₂.completedPieces.trans h₁.completedPieces, h₂.nextPiece.trans h₁.nextPiece⟩

theorem SamePieces.bitfieldFits (h : SamePieces s t) (hs : s.BitfieldFits) : t.BitfieldFits := by
  rw [BitfieldFits, pieceCount, h.bitfield, h.infoDict]
  exact hs

theorem SamePieces.schedulerAgrees (h : SamePieces s t) (hs : s.SchedulerAgrees) :
    t.SchedulerAgrees := by
  refine ⟨?_, ?_⟩
  · rw [h.completedPieces, h.bitfield]
    exact hs.bits
  · rw [h.bitfield, h.nextPiece]
    exact hs.next

theorem SamePieces.schedulerUnset (h : SamePieces s t) (hs : s.SchedulerUnset) :
    t.SchedulerUnset := by
  refine ⟨?_, ?_⟩
  · rw [h.completedPieces]
    exact hs.bits
  · rw [h.nextPiece]
    exact hs.next

/-- Completing a piece sets the bit in both copies. -/
theorem SchedulerAgrees.completePiece (hs : s.SchedulerAgrees) (index : ℕ) :
    (s.completePiece index).SchedulerAgrees := by
  refine ⟨congrArg (List.set · index true) hs.bits, ?_⟩
  have hnext := hs.next.set_true index
  change IsFirstIncomplete (s.bitfield.set index true) (PieceScheduler.skipComplete
    ((s.pieceScheduler.completedPieces.set index true).drop s.pieceScheduler.nextPiece)
    s.pieceScheduler.nextPiece)
  rw [hs.bits]
  exact hnext

theorem SchedulerUnset.completePiece (hs : s.SchedulerUnset) (index : ℕ) :
    (s.completePiece index).SchedulerUnset := by
  refine ⟨?_, ?_⟩
  · change s.pieceScheduler.completedPieces.set index true = []
    rw [hs.bits]
    rfl
  · change PieceScheduler.skipComplete
      ((s.pieceScheduler.completedPieces.set index true).drop s.pieceScheduler.nextPiece)
      s.pieceScheduler.nextPiece = 0
    rw [hs.bits, hs.next]
    rfl

end Frames

/-! ### Restoring -/

/-- Marking the pieces whose bits are set behind a first part that is already marked. -/
theorem markComplete_completedPieces (bits done : List Bool) (p : PieceScheduler)
    (hp : p.completedPieces = done ++ List.replicate bits.length false) :
    (markComplete bits done.length p).completedPieces = done ++ bits := by
  induction bits generalizing done p with
  | nil => simpa [markComplete] using hp
  | cons bit bits ih =>
      have hstep : (if bit then p.markPieceComplete done.length else p).completedPieces
          = (done ++ [bit]) ++ List.replicate bits.length false := by
        cases bit with
        | false => simpa [List.replicate_succ] using hp
        | true =>
            change p.completedPieces.set done.length true = _
            rw [hp, List.length_cons, List.replicate_succ]
            simp
      have hrest := ih (done ++ [bit]) _ hstep
      rw [List.length_append, List.length_singleton] at hrest
      rw [markComplete, hrest, List.append_assoc]
      rfl

theorem markComplete_isFirstIncomplete (bits : List Bool) (i : ℕ) (p : PieceScheduler)
    (hp : IsFirstIncomplete p.completedPieces p.nextPiece) :
    IsFirstIncomplete (markComplete bits i p).completedPieces (markComplete bits i p).nextPiece := by
  induction bits generalizing i p with
  | nil => exact hp
  | cons bit bits ih =>
      refine ih (i + 1) _ ?_
      cases bit with
      | false => exact hp
      | true => exact hp.set_true i

theorem markComplete_completedBlocks (bits : List Bool) (i : ℕ) (p : PieceScheduler)
    (hp : p.completedBlocks = ∅) : (markComplete bits i p).completedBlocks = ∅ := by
  induction bits generalizing i p with
  | nil => exact hp
  | cons bit bits ih =>
      refine ih (i + 1) _ ?_
      cases bit with
      | false => exact hp
      | true =>
          change p.completedBlocks.erase i = ∅
          rw [hp]
          rfl

/-- Restoring the rows of blocks does not touch the pieces. -/
theorem foldl_restorePieceBlocks_eq (entries : List PieceBlockSnapshot) (p : PieceScheduler) :
    let restored := entries.foldl
      (fun p entry => p.restorePieceBlocks entry.pieceIndex entry.blocks) p
    restored.completedPieces = p.completedPieces ∧ restored.nextPiece = p.nextPiece := by
  induction entries generalizing p with
  | nil => exact ⟨rfl, rfl⟩
  | cons entry entries ih => exact ih (p.restorePieceBlocks entry.pieceIndex entry.blocks)

/-- **The scheduler of a restored torrent has the bits of the snapshot.** -/
theorem restoredScheduler_spec (bits : List Bool) (entries : List PieceBlockSnapshot) :
    (restoredScheduler bits.length bits entries).completedPieces = bits ∧
    IsFirstIncomplete bits (restoredScheduler bits.length bits entries).nextPiece := by
  obtain ⟨hpieces, hnext⟩ := foldl_restorePieceBlocks_eq entries
    (markComplete bits 0 (PieceScheduler.new bits.length))
  have hbits : (markComplete bits 0 (PieceScheduler.new bits.length)).completedPieces = bits :=
    markComplete_completedPieces bits [] _ rfl
  have hfirst := markComplete_isFirstIncomplete bits 0 (PieceScheduler.new bits.length)
    (IsFirstIncomplete.replicate_false bits.length)
  rw [hbits] at hfirst
  refine ⟨hpieces.trans hbits, ?_⟩
  rw [restoredScheduler, hnext]
  exact hfirst

section Steps

variable [DecidableEq H] {c : Codec H} {s : TorrentActor H}

omit [DecidableEq H] in
theorem infoDict_restoreSnapshot (snap : TorrentSnapshot H) (h : snap.metainfo = s.metainfo) :
    (s.restoreSnapshot snap).infoDict = snap.resolvedInfo := by
  unfold infoDict TorrentSnapshot.resolvedInfo
  rw [h]
  rfl

omit [DecidableEq H] in
theorem bitfieldFits_restoreSnapshot {snap : TorrentSnapshot H} (hv : snap.IsValid c)
    (h : snap.metainfo = s.metainfo) : (s.restoreSnapshot snap).BitfieldFits := by
  rw [BitfieldFits, pieceCount, infoDict_restoreSnapshot snap h]
  exact hv.bitfield

omit [DecidableEq H] in
theorem schedulerAgrees_restoreSnapshot {snap : TorrentSnapshot H} (hv : snap.IsValid c)
    (h : snap.metainfo = s.metainfo) : (s.restoreSnapshot snap).SchedulerAgrees := by
  have hcount : ((s.restoreSnapshot snap).infoDict.map Info.pieceCount).getD 0
      = snap.bitfield.length := by
    rw [infoDict_restoreSnapshot snap h, hv.bitfield]
  have hsched : (s.restoreSnapshot snap).pieceScheduler
      = restoredScheduler snap.bitfield.length snap.bitfield snap.blockMap := by
    rw [← hcount]
    rfl
  obtain ⟨hbits, hnext⟩ := restoredScheduler_spec snap.bitfield snap.blockMap
  refine ⟨?_, ?_⟩
  · rw [hsched]
    exact hbits
  · rw [hsched]
    exact hnext

/-! ### Blocks -/

omit [DecidableEq H] in
theorem samePieces_recordBlock (s : TorrentActor H) (index offset n : ℕ) :
    SamePieces s (s.recordBlock index offset n) := by
  obtain ⟨hpieces, hnext⟩ := recordBlock_pieces s index offset n
  exact ⟨rfl, rfl, hpieces, hnext⟩

/-- **What handling a block does to the complete pieces and to the lifecycle state**: nothing, or
the bit of its piece is set, and then the torrent seeds if no piece is left. -/
theorem HandlesBlock.pieces {index offset : ℕ} {block : Bytes} {env : BlockEnv}
    {t : TorrentActor H} (h : HandlesBlock c s index offset block env t) :
    (SamePieces s t ∧ t.state = s.state) ∨
    ∃ v, SamePieces s v ∧ SamePieces (v.completePiece index) t ∧
      t.state = if s.pieceCount ≤ (s.pieceScheduler.markPieceComplete index).nextPiece
        then .seeding else s.state := by
  have hwrite : SamePieces s (s.writeBlockToStorage c index offset block env.write).1 := by
    rw [writeBlockToStorage_eq]
    exact ⟨rfl, rfl, rfl, rfl⟩
  have hrecord : ∀ n, SamePieces s
      ((s.writeBlockToStorage c index offset block env.write).1.recordBlock index offset n) :=
    fun n => hwrite.trans (samePieces_recordBlock _ index offset n)
  have hcommit : ∀ v : TorrentActor H, SamePieces v (v.validateAndCommitPiece c index env).1 := by
    intro v
    rw [validateAndCommitPiece_eq]
    exact ⟨rfl, rfl, rfl, rfl⟩
  have hremove : ∀ u v : TorrentActor H,
      v = { u.mapScheduler (·.removePieceBlocks index) with outbox := v.outbox } →
      SamePieces u v := by
    intro u v hv
    rw [hv]
    exact ⟨rfl, rfl, rfl, rfl⟩
  cases h with
  | ignored h _ hst => exact Or.inl ⟨h.toBits.toPieces, hst⟩
  | unwritten _ _ h hst => exact Or.inl ⟨hwrite.trans h.toBits.toPieces, hst⟩
  | recorded _ _ hu _ h hst =>
      subst hu
      exact Or.inl ⟨(hrecord _).trans h.toBits.toPieces, hst⟩
  | uncommitted _ _ hu _ hv _ h hst =>
      subst hu
      exact Or.inl ⟨(((hrecord _).trans (hremove _ _ hv)).trans (hcommit _)).trans
        h.toBits.toPieces, hst⟩
  | committed _ _ hu _ hv _ h hst =>
      subst hu
      exact Or.inr ⟨_, ((hrecord _).trans (hremove _ _ hv)).trans (hcommit _), h.toBits.toPieces,
        hst⟩

omit [DecidableEq H] in
theorem BitfieldFits.completePiece (hs : s.BitfieldFits) (index : ℕ) :
    (s.completePiece index).BitfieldFits := by
  change (s.bitfield.set index true).length = s.pieceCount
  rw [List.length_set]
  exact hs

/-! ### Metadata -/

/-- Resolving metadata either does nothing to the data, or installs the metadata. -/
theorem infoBytes_cases (c : Codec H) (bytes : Bytes) (env : BroadcastEnv) (s : TorrentActor H) :
    s.infoBytes c bytes env = s ∨
    ∃ info, s.infoDict = none ∧ c.sha1 bytes = s.infoHash ∧ c.fromBytes bytes = some info ∧
      s.infoBytes c bytes env = (s.resolveMetadata info).broadcastToPeers
        (.haveInfoDict (List.replicate info.pieceCount false)) env := by
  unfold infoBytes
  split
  · exact Or.inl rfl
  · rename_i hnone
    split
    · exact Or.inl rfl
    · rename_i hhash
      cases hinfo : c.fromBytes bytes with
      | none => exact Or.inl rfl
      | some info =>
          exact Or.inr ⟨info, by simpa using hnone, by simpa using hhash, rfl, rfl⟩

omit [DecidableEq H] in
/-- Metadata is only resolved for a magnet link. -/
theorem infoDict_resolveMetadata {info : Info H} (h : s.infoDict = none) :
    (s.resolveMetadata info).infoDict = some info := by
  cases hmeta : s.metainfo with
  | torrent i => simp [infoDict, hmeta] at h
  | magnetUri xt => simp [infoDict, resolveMetadata, hmeta]

/-! ### Runs -/

/-- What holds of the bits in every run. -/
structure BitsInv (s : TorrentActor H) : Prop where
  fits : s.BitfieldFits
  scheduler : s.SchedulerAgrees ∨ s.SchedulerUnset

omit [DecidableEq H] in
theorem SamePieces.bitsInv {t : TorrentActor H} (h : SamePieces s t) (hs : s.BitsInv) :
    t.BitsInv :=
  ⟨h.bitfieldFits hs.fits, hs.scheduler.imp h.schedulerAgrees h.schedulerUnset⟩

omit [DecidableEq H] in
theorem bitfieldFits_onStart {args : Args H} {disk : FileStore Path}
    (h : onStart c args disk = some s) : s.BitfieldFits ∧ s.SchedulerAgrees := by
  unfold onStart at h
  obtain ⟨hash, -, rfl⟩ := Option.map_eq_some_iff.1 h
  refine ⟨?_, ⟨rfl, IsFirstIncomplete.replicate_false _⟩⟩
  rw [BitfieldFits, List.length_replicate, pieceCount, infoDict]

/-- The scheduler stays unset, or agrees, when metadata is resolved. -/
theorem BitsInv.infoBytes (hs : s.BitsInv) (bytes : Bytes) (env : BroadcastEnv) :
    (s.infoBytes c bytes env).BitsInv := by
  rcases infoBytes_cases c bytes env s with heq | ⟨info, hnone, -, -, heq⟩
  · rw [heq]
    exact hs
  · rw [heq]
    have hlen : s.bitfield = [] := by
      have hfits := hs.fits
      rw [BitfieldFits, pieceCount, hnone] at hfits
      exact List.eq_nil_of_length_eq_zero hfits
    have hunset : (s.resolveMetadata info).SchedulerUnset := by
      rcases hs.scheduler with hagree | hunset
      · have hle := hagree.next.le
        rw [hlen] at hle
        exact ⟨hagree.bits.trans hlen, Nat.le_zero.1 hle⟩
      · exact ⟨hunset.bits, hunset.next⟩
    have hfits : (s.resolveMetadata info).BitfieldFits := by
      rw [BitfieldFits, pieceCount, infoDict_resolveMetadata hnone]
      exact List.length_replicate
    have hsame : SamePieces (s.resolveMetadata info) ((s.resolveMetadata info).broadcastToPeers
        (.haveInfoDict (List.replicate info.pieceCount false)) env) := ⟨rfl, rfl, rfl, rfl⟩
    exact hsame.bitsInv ⟨hfits, Or.inr hunset⟩

theorem BitsInv.handleIncomingPiece (hs : s.BitsInv) (p : PeerId) (index offset : ℕ)
    (block : Bytes) (env : BlockEnv) :
    (s.handleIncomingPiece c p index offset block env).BitsInv := by
  rcases (handlesBlock c s p index offset block env).pieces with ⟨h, -⟩ | ⟨v, hv, h, -⟩
  · exact h.bitsInv hs
  · have hv' := hv.bitsInv hs
    exact h.bitsInv ⟨hv'.fits.completePiece index,
      hv'.scheduler.imp (·.completePiece index) (·.completePiece index)⟩

/-- One step keeps the bits in order, whatever the message. -/
theorem BitsInv.step (hs : s.BitsInv) {i : Input c} (hown : s.RestoresOwn i.message) :
    (s.step i).BitsInv := by
  have hnext := sameData_next i.check s
  have hs' : (s.next i.check).BitsInv := hnext.toBits.toPieces.bitsInv hs
  unfold TorrentActor.step
  cases hm : i.message with
  | incomingPiece p index offset block env =>
      exact hs'.handleIncomingPiece p index offset block env
  | infoBytes bytes env => exact hs'.infoBytes bytes env
  | restoreSnapshot v =>
      rw [hm] at hown
      have hmeta : v.snapshot.metainfo = (s.next i.check).metainfo := by
        rw [hnext.metainfo]
        exact hown
      exact ⟨bitfieldFits_restoreSnapshot v.valid hmeta,
        Or.inl (schedulerAgrees_restoreSnapshot v.valid hmeta)⟩
  | _ =>
      refine (sameBits_handle _ ?_).toPieces.bitsInv hs'
      exact trivial

/-- **In every run the bitfield fits, and the scheduler agrees or is unset.** -/
theorem bitsInv_of_reach {G : TorrentActor H → Input c → Prop}
    (h : (torrentSystem c).Reach G s) : s.BitsInv := by
  refine h.invariant ?_ ?_
  · rintro s ⟨args, disk, hstart⟩
    obtain ⟨hfits, hagree⟩ := bitfieldFits_onStart hstart
    exact ⟨hfits, Or.inl hagree⟩
  · rintro s i t hs - ⟨hown, rfl⟩
    exact hs.step hown

end Steps

end TorrentActor

/-! ### The agreement -/

section Agreement

variable {H : Type} [DecidableEq H]

/-- A message that resolves metadata with at least one piece: the bytes hash to the torrent's info
hash, and are an info dictionary with pieces. -/
def ResolvesPieces {c : Codec H} (s : TorrentActor H) : TorrentMessage c → Prop
  | .infoBytes bytes _ => s.infoDict = none ∧ c.sha1 bytes = s.infoHash ∧
      ∃ info, c.fromBytes bytes = some info ∧ info.pieceCount ≠ 0
  | _ => False

/-- Scheduler and torrent agree on what is complete. -/
def AgreesOnComplete (s : TorrentActor H) : Prop :=
  (∀ info, s.infoDict = some info →
    s.bitfield.length = info.pieceCount ∧
    s.pieceScheduler.completedPieces.length = info.pieceCount ∧
    s.pieceScheduler.completedPieces = s.bitfield ∧
    IsFirstIncomplete s.bitfield s.pieceScheduler.nextPiece) ∧
  (s.infoDict = none → s.bitfield.length = 0 ∧ s.pieceScheduler.completedPieces.length = 0)

namespace TorrentActor

variable {c : Codec H} {s : TorrentActor H}

omit [DecidableEq H] in
theorem agreesOnComplete_of (hfits : s.BitfieldFits) (hagree : s.SchedulerAgrees) :
    AgreesOnComplete s := by
  rw [BitfieldFits, pieceCount] at hfits
  refine ⟨?_, ?_⟩
  · intro info hinfo
    rw [hinfo] at hfits
    refine ⟨hfits, ?_, hagree.bits, hagree.next⟩
    rw [hagree.bits]
    exact hfits
  · intro hnone
    rw [hnone] at hfits
    refine ⟨hfits, ?_⟩
    rw [hagree.bits]
    exact hfits

/-- One step that resolves no pieces keeps the agreement. -/
theorem SchedulerAgrees.step (hfits : s.BitfieldFits) (hs : s.SchedulerAgrees) {i : Input c}
    (hG : ¬ ResolvesPieces s i.message) (hown : s.RestoresOwn i.message) :
    (s.step i).SchedulerAgrees := by
  have hnext := sameData_next i.check s
  have hs' : (s.next i.check).SchedulerAgrees := hnext.toBits.toPieces.schedulerAgrees hs
  unfold TorrentActor.step
  cases hm : i.message with
  | incomingPiece p index offset block env =>
      rcases (handlesBlock c (s.next i.check) p index offset block env).pieces with
        ⟨h, -⟩ | ⟨v, hv, h, -⟩
      · exact h.schedulerAgrees hs'
      · exact h.schedulerAgrees ((hv.schedulerAgrees hs').completePiece index)
  | infoBytes bytes env =>
      rw [hm] at hG
      rcases infoBytes_cases c bytes env (s.next i.check) with heq | ⟨info, hnone, hhash, hinfo, heq⟩
      · change ((s.next i.check).infoBytes c bytes env).SchedulerAgrees
        rw [heq]
        exact hs'
      · -- The dictionary has no pieces, so the new bitfield is as empty as the scheduler.
        rw [hnext.infoDict] at hnone
        rw [hnext.infoHash] at hhash
        have hzero : info.pieceCount = 0 := by
          by_contra hne
          exact hG ⟨hnone, hhash, info, hinfo, hne⟩
        have hbits : (s.next i.check).bitfield = [] := by
          rw [BitfieldFits, pieceCount, hnone] at hfits
          rw [hnext.bitfield]
          exact List.eq_nil_of_length_eq_zero hfits
        change ((s.next i.check).infoBytes c bytes env).SchedulerAgrees
        rw [heq]
        refine ⟨?_, ?_⟩
        · change (s.next i.check).pieceScheduler.completedPieces = List.replicate info.pieceCount false
          rw [hs'.bits, hbits, hzero]
          rfl
        · change IsFirstIncomplete (List.replicate info.pieceCount false)
            (s.next i.check).pieceScheduler.nextPiece
          have hfirst := hs'.next
          rw [hbits] at hfirst
          rw [hzero]
          exact hfirst
  | restoreSnapshot v =>
      rw [hm] at hown
      have hmeta : v.snapshot.metainfo = (s.next i.check).metainfo := by
        rw [hnext.metainfo]
        exact hown
      exact schedulerAgrees_restoreSnapshot v.valid hmeta
  | _ =>
      refine (sameBits_handle _ ?_).toPieces.schedulerAgrees hs'
      exact trivial

end TorrentActor

/-- **In every run in which no metadata with pieces is resolved, scheduler and torrent agree on
what is complete.** -/
theorem scheduler_agrees_unless_metadata_resolves {c : Codec H} {s : TorrentActor H}
    (h : (torrentSystem c).Reach (fun s i => ¬ ResolvesPieces s i.message) s) :
    AgreesOnComplete s := by
  have hagree : s.SchedulerAgrees := by
    refine h.strengthen (fun _ hr => TorrentActor.bitsInv_of_reach hr) ?_ ?_
    · rintro s ⟨args, disk, hstart⟩
      exact (TorrentActor.bitfieldFits_onStart hstart).2
    · rintro s i t hbits hs hG ⟨hown, rfl⟩
      exact hs.step hbits.fits hG hown
  exact TorrentActor.agreesOnComplete_of (TorrentActor.bitsInv_of_reach h).fits hagree

/-- The only block is asked for, metadata comes that is known already, and then the block. -/
def Sample.fetching : List (TorrentMessage Sample.codec) :=
  Sample.asking ++ [.infoBytes Sample.infoBytes Sample.broadcastEnv,
    .incomingPiece Sample.peer 0 0 [7] Sample.blockEnv]

def Sample.fetched : TorrentActor Bytes := Sample.run (Sample.fromFile .inFile) Sample.fetching

theorem scheduler_agrees_sample :
    AgreesOnComplete Sample.fetched ∧ Sample.fetched.bitfield = [true] ∧
      Sample.fetched.pieceScheduler.nextPiece = 1 := by
  refine ⟨scheduler_agrees_unless_metadata_resolves (Sample.reach_along
    (.init (Sample.init_fromFile .inFile)) ?_), by decide +kernel, by decide +kernel⟩
  refine ⟨⟨id, trivial⟩, ⟨id, trivial⟩, ⟨id, trivial⟩, ⟨?_, trivial⟩, ⟨id, trivial⟩, trivial⟩
  rintro ⟨hnone, -⟩
  cases hnone

/-- A magnet link whose metadata has one piece: the torrent learns of the piece, the scheduler does
not. -/
theorem scheduler_disagrees_after_metadata :
    ∃ s, (torrentSystem Sample.codec).Reach (fun _ _ => True) s ∧ ¬ AgreesOnComplete s := by
  refine ⟨Sample.fromMagnet.step (Sample.input (.infoBytes Sample.infoBytes Sample.broadcastEnv)),
    Sample.reach_step _ (.init Sample.init_fromMagnet) trivial trivial, ?_⟩
  intro h
  have hinfo : Sample.codec.fromBytes Sample.infoBytes = some Sample.info := by
    simp [Sample.codec]
  have hmessage : ∀ s : TorrentActor Bytes, s.infoDict = none → s.infoHash = Sample.infoBytes →
      s.infoBytes Sample.codec Sample.infoBytes Sample.broadcastEnv =
        (s.resolveMetadata Sample.info).broadcastToPeers
          (.haveInfoDict (List.replicate Sample.info.pieceCount false)) Sample.broadcastEnv := by
    intro s hnone hhash
    have hsha : Sample.codec.sha1 Sample.infoBytes = s.infoHash := hhash.symm
    simp [TorrentActor.infoBytes, hnone, hsha, hinfo]
  have hstep : Sample.fromMagnet.step
      (Sample.input (.infoBytes Sample.infoBytes Sample.broadcastEnv)) =
      ((Sample.fromMagnet.next Sample.startEnv).resolveMetadata Sample.info).broadcastToPeers
        (.haveInfoDict (List.replicate Sample.info.pieceCount false)) Sample.broadcastEnv :=
    hmessage (Sample.fromMagnet.next Sample.startEnv) rfl rfl
  rw [hstep] at h
  have hcount := (h.1 Sample.info rfl).2.1
  cases hcount

end Agreement

end Tortillas
