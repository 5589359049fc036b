/-
**What requesting blocks touches.**

Most handlers of the torrent actor end by filling request windows, and rechoking releases old
requests and fills the windows again.  All of these touch the blocks in flight with their counts
and cursors, and the outbox, and nothing else.  `Requesting` says so once, together with what is
sent, so that an invariant of the torrent has to look at these operations only once.

Main definitions:

* `TorrentActor.Requesting` — two states that differ by requesting and releasing blocks.

Main results:

* `TorrentActor.requesting_fillPeerRequestWindowTo`, `TorrentActor.requesting_rechokePeers`, … —
  the operations that fill windows are of this kind;
* `TorrentActor.removePeer_eq` and the lemmas on broadcasts — what the operations that drop peers
  do.
-/

import Tortillas.TorrentActor

set_option relaxedAutoImplicit false
set_option autoImplicit false

namespace Tortillas

namespace TorrentActor

variable {H : Type}

/-- Something that requesting blocks puts into the outbox: a registered peer is choked or
unchoked, or asked for a block that is wanted. -/
inductive IsRequest (s : TorrentActor H) : Effect → Prop
  | choke {p : PeerId} {ref : ActorRef} {choked : Bool} (hp : s.peers.get? p = some ref) :
      IsRequest s (.tell ref (.setChoked choked))
  | need {p : PeerId} {ref : ActorRef} {info : Info H} {r : BlockRequest}
      (hp : s.peers.get? p = some ref) (hinfo : s.infoDict = some info)
      (hr : s.pieceScheduler.Wanted info.pieceLength.toNat info.totalLength r) :
      IsRequest s (.tell ref (.needPiece r.pieceIndex r.offset r.length))

/-- The second state comes from the first by requesting and releasing blocks. -/
structure Requesting (s t : TorrentActor H) : Prop where
  frame : t = { s with pieceScheduler := t.pieceScheduler, outbox := t.outbox }
  scheduler : PieceScheduler.SameProgress s.pieceScheduler t.pieceScheduler
  mentions : ∀ p, t.pieceScheduler.Mentions p →
    s.pieceScheduler.Mentions p ∨ s.peers.get? p ≠ none
  /-- What is sent, and that every block newly in flight has been asked for. -/
  sent : ∃ sent, t.outbox = s.outbox ++ sent ∧ (∀ e ∈ sent, s.IsRequest e) ∧
    ∀ i j x, t.pieceScheduler.inFlightAt i j = some x →
      s.pieceScheduler.inFlightAt i j = some x ∨
      ∃ ref info r, s.peers.get? x.peerId = some ref ∧ s.infoDict = some info ∧
        r.pieceIndex = i ∧ r.blockIndex = j ∧
        s.pieceScheduler.Wanted info.pieceLength.toNat info.totalLength r ∧
        Effect.tell ref (.needPiece r.pieceIndex r.offset r.length) ∈ sent

namespace Requesting

variable {s t u : TorrentActor H}

theorem refl (s : TorrentActor H) : Requesting s s where
  frame := rfl
  scheduler := PieceScheduler.SameProgress.refl _
  mentions _ h := Or.inl h
  sent := ⟨[], (List.append_nil _).symm, fun _ h => absurd h List.not_mem_nil,
    fun _ _ _ h => Or.inl h⟩

/-- What is unchanged. -/
theorem peers (h : Requesting s t) : t.peers = s.peers := by rw [h.frame]

theorem state (h : Requesting s t) : t.state = s.state := by rw [h.frame]

theorem infoDict (h : Requesting s t) : t.infoDict = s.infoDict := by
  rw [h.frame]
  rfl

theorem wanted (h : Requesting s t) {pl tl : ℕ} {r : BlockRequest}
    (hr : t.pieceScheduler.Wanted pl tl r) : s.pieceScheduler.Wanted pl tl r := by
  obtain ⟨hpiece, hblock, hmissing, hlength⟩ := hr
  rw [h.scheduler.completedPieces] at hpiece hblock hlength
  refine ⟨hpiece, hblock, ?_, hlength⟩
  rwa [PieceScheduler.isDuplicateBlock, h.scheduler.completedBlocks] at hmissing

theorem isRequest (h : Requesting s t) {e : Effect} (he : t.IsRequest e) : s.IsRequest e := by
  cases he with
  | choke hp =>
      rw [h.peers] at hp
      exact IsRequest.choke hp
  | need hp hinfo hr =>
      rw [h.peers] at hp
      rw [h.infoDict] at hinfo
      exact IsRequest.need hp hinfo (h.wanted hr)

theorem trans (h₁ : Requesting s t) (h₂ : Requesting t u) : Requesting s u := by
  refine ⟨?_, h₁.scheduler.trans h₂.scheduler, ?_, ?_⟩
  · rw [h₂.frame, h₁.frame]
  · intro p hp
    rcases h₂.mentions p hp with hp | hp
    · exact h₁.mentions p hp
    · rw [h₁.peers] at hp
      exact Or.inr hp
  · obtain ⟨sent₁, hout₁, hreq₁, hfly₁⟩ := h₁.sent
    obtain ⟨sent₂, hout₂, hreq₂, hfly₂⟩ := h₂.sent
    refine ⟨sent₁ ++ sent₂, by rw [hout₂, hout₁, List.append_assoc], ?_, ?_⟩
    · intro e he
      rcases List.mem_append.1 he with he | he
      · exact hreq₁ e he
      · exact h₁.isRequest (hreq₂ e he)
    · intro i j x hx
      rcases hfly₂ i j x hx with hx | ⟨ref, info, r, hp, hinfo, hi, hj, hr, hmem⟩
      · rcases hfly₁ i j x hx with hx | ⟨ref, info, r, hp, hinfo, hi, hj, hr, hmem⟩
        · exact Or.inl hx
        · exact Or.inr ⟨ref, info, r, hp, hinfo, hi, hj, hr, List.mem_append_left _ hmem⟩
      · rw [h₁.peers] at hp
        rw [h₁.infoDict] at hinfo
        exact Or.inr ⟨ref, info, r, hp, hinfo, hi, hj, h₁.wanted hr, List.mem_append_right _ hmem⟩

/-- Requesting one after another over a list. -/
theorem foldl {α : Type} {f : TorrentActor H → α → TorrentActor H}
    (hf : ∀ s a, Requesting s (f s a)) (as : List α) (s : TorrentActor H) :
    Requesting s (as.foldl f s) := by
  induction as generalizing s with
  | nil => exact refl s
  | cons a as ih => exact (hf s a).trans (ih (f s a))

/-- Releasing blocks is requesting nothing. -/
theorem mapScheduler {f : PieceScheduler → PieceScheduler}
    (hf : PieceScheduler.SameProgress s.pieceScheduler (f s.pieceScheduler))
    (hmentions : ∀ p, (f s.pieceScheduler).Mentions p → s.pieceScheduler.Mentions p)
    (hfly : ∀ i j x, (f s.pieceScheduler).inFlightAt i j = some x →
      s.pieceScheduler.inFlightAt i j = some x) :
    Requesting s (s.mapScheduler f) where
  frame := rfl
  scheduler := hf
  mentions p h := Or.inl (hmentions p h)
  sent := ⟨[], (List.append_nil _).symm, fun _ h => absurd h List.not_mem_nil,
    fun i j x h => Or.inl (hfly i j x h)⟩

end Requesting

/-! ### Filling windows -/

theorem inFlightAt_of_releasePeerRequest {p : PieceScheduler} {q : PeerId} {index offset i j : ℕ}
    {x : InFlightBlock} (h : (p.releasePeerRequest q index offset).inFlightAt i j = some x) :
    p.inFlightAt i j = some x := by
  rw [PieceScheduler.releasePeerRequest_eq] at h
  split at h
  · rw [PieceScheduler.inFlightAt_takeBack] at h
    split at h
    · cases h
    · exact h
  · exact h

theorem requesting_releasePeerRequest (s : TorrentActor H) (p : PeerId) (index offset : ℕ) :
    Requesting s (s.mapScheduler (·.releasePeerRequest p index offset)) :=
  Requesting.mapScheduler (PieceScheduler.sameProgress_releasePeerRequest _ _ _ _)
    (fun _ h => h.of_releasePeerRequest) (fun _ _ _ h => inFlightAt_of_releasePeerRequest h)

theorem requesting_releaseStaleRequests (s : TorrentActor H) (now timeout : ℕ) :
    Requesting s (s.mapScheduler fun p => (p.releaseStaleRequests now timeout).1) := by
  refine Requesting.mapScheduler ⟨rfl, rfl, rfl, rfl⟩ (fun _ h => h.of_releaseStaleRequests) ?_
  intro i j x h
  rw [PieceScheduler.inFlightAt_releaseStaleRequests, Option.filter_eq_some_iff] at h
  exact h.1

/-- The loop that sends requests: nothing but blocks in flight, counts and the outbox changes, no
block is put in flight, and the blocks of the requests that are still in flight for the peer have
been asked for. -/
theorem sendRequests_spec (p : PeerId) (ref : ActorRef) (ok : ℕ → Bool)
    (rs : List BlockRequest) (n : ℕ) (s : TorrentActor H) :
    let t := sendRequests p ref ok rs n s
    t = { s with pieceScheduler := t.pieceScheduler, outbox := t.outbox } ∧
    PieceScheduler.SameProgress s.pieceScheduler t.pieceScheduler ∧
    (∀ q, t.pieceScheduler.Mentions q → s.pieceScheduler.Mentions q) ∧
    (∀ i j x, t.pieceScheduler.inFlightAt i j = some x →
      s.pieceScheduler.inFlightAt i j = some x) ∧
    ∃ sent, t.outbox = s.outbox ++ sent ∧
      (∀ e ∈ sent, ∃ r ∈ rs, e = .tell ref (.needPiece r.pieceIndex r.offset r.length)) ∧
      ∀ r ∈ rs, ∀ x, t.pieceScheduler.inFlightAt r.pieceIndex r.blockIndex = some x →
        x.peerId = p → Effect.tell ref (.needPiece r.pieceIndex r.offset r.length) ∈ sent := by
  induction rs generalizing n s with
  | nil =>
      exact ⟨rfl, PieceScheduler.SameProgress.refl _, fun _ h => h, fun _ _ _ h => h, [], (List.append_nil _).symm,
        fun _ h => absurd h List.not_mem_nil, fun _ h => absurd h List.not_mem_nil⟩
  | cons r rs ih =>
      simp only [sendRequests]
      by_cases hok : ok n = true
      · rw [if_pos hok]
        obtain ⟨hframe, hsched, hment, hfly, sent, hout, hsent, hasked⟩ :=
          ih (n + 1) (s.emit (.tell ref (.needPiece r.pieceIndex r.offset r.length)))
        refine ⟨hframe, hsched, hment, hfly,
          .tell ref (.needPiece r.pieceIndex r.offset r.length) :: sent, ?_, ?_, ?_⟩
        · rw [hout]
          simp [emit]
        · intro e he
          rcases List.mem_cons.1 he with rfl | he
          · exact ⟨r, List.mem_cons_self .., rfl⟩
          · obtain ⟨r', hr', heq⟩ := hsent e he
            exact ⟨r', List.mem_cons_of_mem _ hr', heq⟩
        · intro r' hr' x hx hp
          rcases List.mem_cons.1 hr' with rfl | hr'
          · exact List.mem_cons_self ..
          · exact List.mem_cons_of_mem _ (hasked r' hr' x hx hp)
      · rw [if_neg hok]
        obtain ⟨hframe, hsched, hment, hfly, sent, hout, hsent, hasked⟩ :=
          ih (n + 1) (s.mapScheduler (·.releasePeerRequest p r.pieceIndex r.offset))
        have hrel := PieceScheduler.sameProgress_releasePeerRequest s.pieceScheduler p
          r.pieceIndex r.offset
        refine ⟨hframe, hrel.trans hsched, fun q h => (hment q h).of_releasePeerRequest,
          fun i j x h => inFlightAt_of_releasePeerRequest (hfly i j x h), sent, hout, ?_, ?_⟩
        · intro e he
          obtain ⟨r', hr', heq⟩ := hsent e he
          exact ⟨r', List.mem_cons_of_mem _ hr', heq⟩
        · intro r' hr' x hx hp
          rcases List.mem_cons.1 hr' with rfl | hr'
          · -- The request was released, so its block is no longer in flight for the peer.
            have hback : (s.pieceScheduler.releasePeerRequest p r'.pieceIndex r'.offset).inFlightAt
                r'.pieceIndex r'.blockIndex = some x := hfly _ _ _ hx
            have hdiv : r'.offset / blockSize = r'.blockIndex :=
              Nat.mul_div_cancel _ (by decide)
            have hold := inFlightAt_of_releasePeerRequest hback
            rw [PieceScheduler.releasePeerRequest_eq, hdiv, hold] at hback
            rw [if_pos (by simp [hp]), PieceScheduler.inFlightAt_takeBack,
              if_pos ⟨rfl, rfl⟩] at hback
            cases hback
          · exact hasked r' hr' x hx hp

theorem requesting_fillPeerRequestWindowTo (p : PeerId) (target : ℕ) (env : FillEnv)
    (s : TorrentActor H) : Requesting s (s.fillPeerRequestWindowTo p target env) := by
  unfold fillPeerRequestWindowTo
  split
  · exact Requesting.refl s
  · cases hinfo : s.infoDict with
    | none => exact Requesting.refl s
    | some info =>
        cases hpeer : s.peers.get? p with
        | none => exact Requesting.refl s
        | some ref =>
            simp only
            split
            · exact Requesting.refl s
            · have hassign := PieceScheduler.requestsForPeer_assigns p info.pieceLength.toNat
                info.totalLength env.clock
                (target - s.pieceScheduler.inFlightForPeer p) s.pieceScheduler
              generalize s.pieceScheduler.requestsForPeer p info.pieceLength.toNat
                info.totalLength env.clock
                (target - s.pieceScheduler.inFlightForPeer p) = assigned at hassign ⊢
              obtain ⟨hframe, hsched, hment, hfly, sent, hout, hsent, hasked⟩ :=
                sendRequests_spec p ref env.sent assigned.2 0
                  { s with pieceScheduler := assigned.1 }
              refine ⟨hframe, hassign.toSameProgress.trans hsched, ?_, sent, hout, ?_, ?_⟩
              · intro q hq
                rcases hassign.mentions (hment q hq) with rfl | hq
                · exact Or.inr (by simp [hpeer])
                · exact Or.inl hq
              · intro e he
                obtain ⟨r, hr, rfl⟩ := hsent e he
                exact IsRequest.need hpeer hinfo (hassign.requests r hr).1.toWanted
              · intro i j x hx
                rcases hassign.added i j x (hfly i j x hx) with hold | ⟨rfl, r, hr, rfl, rfl⟩
                · exact Or.inl hold
                · exact Or.inr ⟨ref, info, r, hpeer, hinfo, rfl, rfl,
                    (hassign.requests r hr).1.toWanted, hasked r hr x hx rfl⟩

theorem requesting_fillPeerRequestWindow (p : PeerId) (env : FillEnv) (s : TorrentActor H) :
    Requesting s (s.fillPeerRequestWindow p env) :=
  requesting_fillPeerRequestWindowTo p _ env s

theorem requesting_fillAllPeerRequestWindows (env : FillAllEnv) (s : TorrentActor H) :
    Requesting s (s.fillAllPeerRequestWindows env) := by
  unfold fillAllPeerRequestWindows
  split
  · exact Requesting.refl s
  · exact Requesting.foldl (fun s id => requesting_fillPeerRequestWindow id _ s) _ s

theorem requesting_tellChoked (env : RechokeEnv) (s : TorrentActor H) (change : PeerId × Bool) :
    Requesting s (s.tellChoked env change) := by
  unfold tellChoked
  cases hpeer : s.peers.get? change.1 with
  | none => exact Requesting.refl s
  | some ref =>
      simp only
      split
      · refine ⟨rfl, PieceScheduler.SameProgress.refl _, fun _ h => Or.inl h, [_], rfl, ?_, fun _ _ _ h => Or.inl h⟩
        intro e he
        cases List.mem_singleton.1 he
        exact IsRequest.choke hpeer
      · exact Requesting.refl s

theorem requesting_rechokePeers (env : RechokeEnv) (s : TorrentActor H) :
    Requesting s (s.rechokePeers env) := by
  unfold rechokePeers
  split
  · exact Requesting.refl s
  · exact ((requesting_releaseStaleRequests s _ _).trans
      (Requesting.foldl (requesting_tellChoked env) _ _)).trans
      (requesting_fillAllPeerRequestWindows _ _)

/-! ### What leaves the data alone -/

/-- The piece manager is the same, or has been told the info dictionary. -/
def SameManager (info : Option (Info H)) (m m' : PieceManagerProxy H) : Prop :=
  m' = m ∨ ∃ dict manager, info = some dict ∧ m = .default manager ∧ manager.path.isSome = true ∧
    m' = .default { manager with info := some dict }

/-- Two states with the same metadata, bitfield, received blocks and files, and the same still to be
written. -/
structure SameData (s t : TorrentActor H) : Prop where
  bitfield : t.bitfield = s.bitfield
  infoHash : t.infoHash = s.infoHash
  resolvedMagnetInfo : t.resolvedMagnetInfo = s.resolvedMagnetInfo
  metainfo : t.metainfo = s.metainfo
  pieceStorage : t.pieceStorage = s.pieceStorage
  disk : t.disk = s.disk
  unflushed : t.unflushed = s.unflushed
  completedPieces : t.pieceScheduler.completedPieces = s.pieceScheduler.completedPieces
  completedBlocks : t.pieceScheduler.completedBlocks = s.pieceScheduler.completedBlocks
  nextPiece : t.pieceScheduler.nextPiece = s.pieceScheduler.nextPiece
  pieceManager : SameManager s.infoDict s.pieceManager t.pieceManager

namespace SameData

variable {s t u : TorrentActor H}

theorem refl (s : TorrentActor H) : SameData s s :=
  ⟨rfl, rfl, rfl, rfl, rfl, rfl, rfl, rfl, rfl, rfl, Or.inl rfl⟩

theorem infoDict (h : SameData s t) : t.infoDict = s.infoDict := by
  rw [TorrentActor.infoDict, TorrentActor.infoDict, h.metainfo, h.resolvedMagnetInfo]

theorem trans (h₁ : SameData s t) (h₂ : SameData t u) : SameData s u := by
  refine ⟨h₂.bitfield.trans h₁.bitfield, h₂.infoHash.trans h₁.infoHash,
    h₂.resolvedMagnetInfo.trans h₁.resolvedMagnetInfo, h₂.metainfo.trans h₁.metainfo,
    h₂.pieceStorage.trans h₁.pieceStorage, h₂.disk.trans h₁.disk, h₂.unflushed.trans h₁.unflushed,
    h₂.completedPieces.trans h₁.completedPieces, h₂.completedBlocks.trans h₁.completedBlocks,
    h₂.nextPiece.trans h₁.nextPiece, ?_⟩
  have hm₂ := h₂.pieceManager
  rw [h₁.infoDict] at hm₂
  rcases hm₂ with hm₂ | ⟨dict, manager, hinfo, hm, hpath, hm₂⟩
  · rw [hm₂]
    exact h₁.pieceManager
  · rcases h₁.pieceManager with hm₁ | ⟨dict', manager', -, hm', hpath', hm₁⟩
    · exact Or.inr ⟨dict, manager, hinfo, hm₁ ▸ hm, hpath, hm₂⟩
    · refine Or.inr ⟨dict, manager', hinfo, hm', hpath', ?_⟩
      cases hm₁.symm.trans hm
      exact hm₂

theorem of_requesting (h : Requesting s t) : SameData s t := by
  have hs := h.scheduler
  rw [h.frame]
  exact ⟨rfl, rfl, rfl, rfl, rfl, rfl, rfl, hs.completedPieces, hs.completedBlocks, hs.nextPiece, Or.inl rfl⟩

/-- A change of the scheduler that leaves the progress alone. -/
theorem mapScheduler {f : PieceScheduler → PieceScheduler}
    (hp : (f s.pieceScheduler).completedPieces = s.pieceScheduler.completedPieces)
    (hb : (f s.pieceScheduler).completedBlocks = s.pieceScheduler.completedBlocks)
    (hn : (f s.pieceScheduler).nextPiece = s.pieceScheduler.nextPiece) :
    SameData s (s.mapScheduler f) :=
  ⟨rfl, rfl, rfl, rfl, rfl, rfl, rfl, hp, hb, hn, Or.inl rfl⟩

end SameData

/-- Two states with the same metadata, bitfield and received blocks; the storage may differ. -/
structure SameBits (s t : TorrentActor H) : Prop where
  bitfield : t.bitfield = s.bitfield
  infoHash : t.infoHash = s.infoHash
  resolvedMagnetInfo : t.resolvedMagnetInfo = s.resolvedMagnetInfo
  metainfo : t.metainfo = s.metainfo
  completedPieces : t.pieceScheduler.completedPieces = s.pieceScheduler.completedPieces
  completedBlocks : t.pieceScheduler.completedBlocks = s.pieceScheduler.completedBlocks
  nextPiece : t.pieceScheduler.nextPiece = s.pieceScheduler.nextPiece

namespace SameBits

variable {s t u : TorrentActor H}

theorem infoDict (h : SameBits s t) : t.infoDict = s.infoDict := by
  rw [TorrentActor.infoDict, TorrentActor.infoDict, h.metainfo, h.resolvedMagnetInfo]

theorem trans (h₁ : SameBits s t) (h₂ : SameBits t u) : SameBits s u :=
  ⟨h₂.bitfield.trans h₁.bitfield, h₂.infoHash.trans h₁.infoHash,
    h₂.resolvedMagnetInfo.trans h₁.resolvedMagnetInfo, h₂.metainfo.trans h₁.metainfo,
    h₂.completedPieces.trans h₁.completedPieces, h₂.completedBlocks.trans h₁.completedBlocks,
    h₂.nextPiece.trans h₁.nextPiece⟩

end SameBits

theorem SameData.toBits {s t : TorrentActor H} (h : SameData s t) : SameBits s t :=
  ⟨h.bitfield, h.infoHash, h.resolvedMagnetInfo, h.metainfo, h.completedPieces,
    h.completedBlocks, h.nextPiece⟩

theorem sameBits_leaveFailed (s : TorrentActor H) : SameBits s s.leaveFailed := by
  unfold leaveFailed
  split <;> exact ⟨rfl, rfl, rfl, rfl, rfl, rfl, rfl⟩

/-- A connection is refused, or registered under an id that was free. -/
theorem insertPeer_cases (id : Option PeerId) (ref : ActorRef) (s : TorrentActor H) :
    s.insertPeer id ref = s ∨
    ∃ p, id = some p ∧ s.peers.get? p = none ∧
      s.insertPeer id ref = { s with peers := s.peers.insert p ref }.emit (.spawn ref p) := by
  unfold insertPeer
  cases id with
  | none => exact Or.inl rfl
  | some p =>
      simp only
      split
      · exact Or.inl rfl
      · rename_i hfree
        exact Or.inr ⟨p, rfl, by simpa [HashMap.contains] using hfree, rfl⟩

/-- **What setting the strategy does**: nothing, when it is refused; else it is set, and a failure
is left. -/
theorem setPieceStorage_cases (strategy : PieceStorageStrategy) (created : Bool)
    (s : TorrentActor H) :
    s.setPieceStorage strategy created = s ∨
      s.setPieceStorage strategy created = { s with pieceStorage := strategy }.leaveFailed := by
  unfold setPieceStorage
  split
  · exact Or.inl rfl
  · cases strategy with
    | inFile =>
        simp only
        split
        · exact Or.inl rfl
        · exact Or.inr rfl
    | disk dir =>
        simp only
        split
        · exact Or.inr rfl
        · exact Or.inl rfl

/-- **What setting the manager does.**  A failure is not left here. -/
theorem setPieceManager_cases (preStarted : Bool) (s : TorrentActor H) :
    s.setPieceManager preStarted = s ∨
      s.setPieceManager preStarted = { s with pieceManager := .custom } := by
  unfold setPieceManager
  split
  · exact Or.inl rfl
  · split
    · exact Or.inl rfl
    · split
      · exact Or.inl rfl
      · exact Or.inr rfl

/-- **What setting the path does**: only the manager of the engine has one. -/
theorem setOutputPath_cases (path : Path) (created : Bool) (s : TorrentActor H) :
    s.setOutputPath path created = s ∨
      ∃ manager : FilePieceManager H, s.pieceManager = .default manager ∧
        s.setOutputPath path created =
          { s with pieceManager := .default { manager with path := some path } }.leaveFailed := by
  unfold setOutputPath
  split
  · exact Or.inl rfl
  · split
    · exact Or.inl rfl
    · rename_i manager hmanager
      split
      · exact Or.inr ⟨manager, hmanager, rfl⟩
      · exact Or.inl rfl

theorem sameBits_setPieceStorage (strategy : PieceStorageStrategy) (created : Bool)
    (s : TorrentActor H) : SameBits s (s.setPieceStorage strategy created) := by
  rcases setPieceStorage_cases strategy created s with heq | heq
  · rw [heq]
    exact (SameData.refl s).toBits
  · rw [heq]
    have h : SameBits s { s with pieceStorage := strategy } := ⟨rfl, rfl, rfl, rfl, rfl, rfl, rfl⟩
    exact h.trans (sameBits_leaveFailed _)

theorem sameBits_setPieceManager (preStarted : Bool) (s : TorrentActor H) :
    SameBits s (s.setPieceManager preStarted) := by
  rcases setPieceManager_cases preStarted s with heq | heq
  · rw [heq]
    exact (SameData.refl s).toBits
  · rw [heq]
    exact ⟨rfl, rfl, rfl, rfl, rfl, rfl, rfl⟩

theorem sameBits_setOutputPath (path : Path) (created : Bool) (s : TorrentActor H) :
    SameBits s (s.setOutputPath path created) := by
  rcases setOutputPath_cases path created s with heq | ⟨manager, -, heq⟩
  · rw [heq]
    exact (SameData.refl s).toBits
  · rw [heq]
    have h : SameBits s { s with pieceManager := .default { manager with path := some path } } :=
      ⟨rfl, rfl, rfl, rfl, rfl, rfl, rfl⟩
    exact h.trans (sameBits_leaveFailed _)

theorem sameData_removePeer (s : TorrentActor H) (id : PeerId) :
    SameData s (s.removePeer id).1 := by
  unfold removePeer
  split
  · exact ⟨rfl, rfl, rfl, rfl, rfl, rfl, rfl, rfl, rfl, rfl, Or.inl rfl⟩
  · exact ⟨rfl, rfl, rfl, rfl, rfl, rfl, rfl, rfl, rfl, rfl, Or.inl rfl⟩

theorem foldl_peerDisconnected_eq (dead : List PeerId) (p : PieceScheduler) :
    (dead.foldl PieceScheduler.peerDisconnected p).completedPieces = p.completedPieces ∧
    (dead.foldl PieceScheduler.peerDisconnected p).completedBlocks = p.completedBlocks ∧
    (dead.foldl PieceScheduler.peerDisconnected p).nextPiece = p.nextPiece := by
  induction dead generalizing p with
  | nil => exact ⟨rfl, rfl, rfl⟩
  | cons id dead ih => exact ih (p.peerDisconnected id)

theorem sameData_broadcastToPeersBestEffort (command : PeerCommand) (env : BroadcastEnv)
    (s : TorrentActor H) : SameData s (s.broadcastToPeersBestEffort command env) := by
  obtain ⟨hp, hb, hn⟩ := foldl_peerDisconnected_eq
    ((s.peers.toList.map Prod.fst).filter env.dead) s.pieceScheduler
  exact ⟨rfl, rfl, rfl, rfl, rfl, rfl, rfl, hp, hb, hn, Or.inl rfl⟩

theorem requesting_fillInitialWindows (env : FillAllEnv) (s : TorrentActor H) :
    Requesting s (s.fillInitialWindows env) := by
  unfold fillInitialWindows
  split
  · exact Requesting.foldl (fun s id => requesting_fillPeerRequestWindowTo id _ _ s) _ s
  · exact Requesting.refl s

theorem sameManager_preStart {info : Info H} {ok : Bool} {m m' : PieceManagerProxy H}
    (h : preStart info ok m = some m') : SameManager (some info) m m' := by
  cases m with
  | custom =>
      simp only [preStart] at h
      split at h
      · cases h
        exact Or.inl rfl
      · cases h
  | default manager =>
      simp only [preStart] at h
      split at h
      · rename_i hpath
        cases h
        exact Or.inr ⟨info, manager, rfl, rfl, hpath, rfl⟩
      · cases h

theorem sameData_start (env : StartEnv) (s : TorrentActor H) : SameData s (s.start env) := by
  unfold start
  split
  · exact SameData.refl s
  · cases hinfo : s.infoDict with
    | none => exact ⟨rfl, rfl, rfl, rfl, rfl, rfl, rfl, rfl, rfl, rfl, Or.inl rfl⟩
    | some info =>
        simp only
        cases hpre : preStart info env.preStart s.pieceManager with
        | none => exact ⟨rfl, rfl, rfl, rfl, rfl, rfl, rfl, rfl, rfl, rfl, Or.inl rfl⟩
        | some manager =>
            have henter : SameData s (s.sendReadyHooks.enterTransfer manager) := by
              refine ⟨rfl, rfl, rfl, rfl, rfl, rfl, rfl, rfl, rfl, rfl, ?_⟩
              rw [hinfo]
              exact sameManager_preStart hpre
            exact henter.trans (SameData.of_requesting
              ((requesting_fillInitialWindows _ _).trans (requesting_rechokePeers _ _)))

theorem sameData_autostartCheck (env : StartEnv) (s : TorrentActor H) :
    SameData s (s.autostartCheck env) := by
  have hend : ∀ t : TorrentActor H, SameData t { t with pendingStart := false } :=
    fun t => ⟨rfl, rfl, rfl, rfl, rfl, rfl, rfl, rfl, rfl, rfl, Or.inl rfl⟩
  unfold autostartCheck
  split
  · exact hend s
  · split
    · have hbegin : SameData s { s with pendingStart := true } :=
        ⟨rfl, rfl, rfl, rfl, rfl, rfl, rfl, rfl, rfl, rfl, Or.inl rfl⟩
      exact (hbegin.trans (sameData_start env _)).trans (hend _)
    · exact ⟨rfl, rfl, rfl, rfl, rfl, rfl, rfl, rfl, rfl, rfl, Or.inl rfl⟩

/-- **The check before a message leaves the data alone.** -/
theorem sameData_next (env : StartEnv) (s : TorrentActor H) : SameData s (s.next env) := by
  have hclear : SameData s { s with outbox := [] } :=
    ⟨rfl, rfl, rfl, rfl, rfl, rfl, rfl, rfl, rfl, rfl, Or.inl rfl⟩
  unfold next
  split
  · exact hclear
  · exact hclear.trans (sameData_autostartCheck env _)

theorem sameData_stopTransfer (env : BroadcastEnv) (s : TorrentActor H) :
    SameData s (s.stopTransfer env) := by
  unfold stopTransfer
  split
  · exact SameData.refl s
  · split
    · exact ⟨rfl, rfl, rfl, rfl, rfl, rfl, rfl, rfl, rfl, rfl, Or.inl rfl⟩
    · exact ⟨rfl, rfl, rfl, rfl, rfl, rfl, rfl, rfl, rfl, rfl, Or.inl rfl⟩

end TorrentActor

/-- The messages whose handlers leave the data alone whatever they carry. -/
def TorrentMessage.IsQuiet {H : Type} [DecidableEq H] {c : Codec H} : TorrentMessage c → Prop
  | .incomingPiece .. | .infoBytes .. | .restoreSnapshot .. | .setPieceStorage ..
  | .setPieceManager .. | .setOutputPath .. | .background .. => False
  | _ => True

namespace TorrentActor

variable {H : Type} [DecidableEq H] {c : Codec H}

/-- **The quiet messages leave the data alone.** -/
theorem sameData_handle (s : TorrentActor H) {m : TorrentMessage c} (h : m.IsQuiet) :
    SameData s (s.handle m) := by
  cases m with
  | incomingPiece => exact absurd h id
  | infoBytes => exact absurd h id
  | restoreSnapshot => exact absurd h id
  | setPieceStorage => exact absurd h id
  | setPieceManager => exact absurd h id
  | setOutputPath => exact absurd h id
  | background => exact absurd h id
  | peerConnected id ref =>
      change SameData s (s.insertPeer id ref)
      rcases insertPeer_cases id ref s with heq | ⟨p, -, -, heq⟩
      · rw [heq]
        exact SameData.refl s
      · rw [heq]
        exact ⟨rfl, rfl, rfl, rfl, rfl, rfl, rfl, rfl, rfl, rfl, Or.inl rfl⟩
  | peerRejectedRequest p index offset env =>
      exact SameData.of_requesting ((requesting_releasePeerRequest s p index offset).trans
        (requesting_fillPeerRequestWindow p env _))
  | peerReady id available alive env =>
      simp only [handle, peerReady]
      have hupdate : SameData s (s.mapScheduler (·.updatePeerAvailability id available)) :=
        SameData.mapScheduler rfl rfl rfl
      split
      · exact hupdate.trans (SameData.of_requesting (requesting_fillPeerRequestWindow id env _))
      · exact hupdate
  | disconnectPeer id env =>
      simp only [handle]
      split
      · exact (sameData_removePeer s id).trans
          (SameData.of_requesting (requesting_fillAllPeerRequestWindows env _))
      · exact sameData_removePeer s id
  | killPeer id env =>
      exact (sameData_removePeer s id).trans
        (SameData.of_requesting (requesting_fillAllPeerRequestWindows env _))
  | setState state start stop =>
      cases state with
      | downloading => exact sameData_start start s
      | seeding => exact sameData_start start s
      | paused => exact sameData_stopTransfer stop s
      | _ => exact ⟨rfl, rfl, rfl, rfl, rfl, rfl, rfl, rfl, rfl, rfl, Or.inl rfl⟩
  | setAutoStart auto env =>
      have hset : SameData s { s with autostart := auto } :=
        ⟨rfl, rfl, rfl, rfl, rfl, rfl, rfl, rfl, rfl, rfl, Or.inl rfl⟩
      simp only [handle]
      split
      · exact hset
      · exact hset.trans (sameData_autostartCheck env _)
  | setSufficientPeers peers env =>
      have hset : SameData s { s with sufficientPeers := peers } :=
        ⟨rfl, rfl, rfl, rfl, rfl, rfl, rfl, rfl, rfl, rfl, Or.inl rfl⟩
      simp only [handle]
      split
      · exact hset
      · exact hset.trans (sameData_autostartCheck env _)
  | rechoke env => exact SameData.of_requesting (requesting_rechokePeers env s)
  | readyHook env =>
      have hset : SameData s { s with readyHook := s.readyHook + 1 } :=
        ⟨rfl, rfl, rfl, rfl, rfl, rfl, rfl, rfl, rfl, rfl, Or.inl rfl⟩
      simp only [handle, readyHookMessage]
      split
      · exact SameData.refl s
      · split
        · exact SameData.refl s
        · exact hset.trans (sameData_autostartCheck env _)
  | query => exact SameData.refl s
  | sharedHave id index =>
      simp only [handle]
      split
      · exact SameData.refl s
      · exact SameData.mapScheduler rfl rfl rfl
  | stop normal => exact ⟨rfl, rfl, rfl, rfl, rfl, rfl, rfl, rfl, rfl, rfl, Or.inl rfl⟩

/-- The messages whose handlers leave metadata, bitfield and received blocks alone. -/
def KeepsBits : TorrentMessage c → Prop
  | .incomingPiece .. | .infoBytes .. | .restoreSnapshot .. => False
  | _ => True

omit [DecidableEq H] in
/-- What is written in the background changes the files alone. -/
theorem writeLate_eq (n k : ℕ) (s : TorrentActor H) :
    s.writeLate n k =
      { s with disk := (s.writeLate n k).disk, unflushed := (s.writeLate n k).unflushed } := by
  unfold writeLate
  split <;> rfl

omit [DecidableEq H] in
/-- What is written in the background is a part of what is left of a write; the rest stays. -/
theorem writeLate_cases (n k : ℕ) (s : TorrentActor H) :
    s.writeLate n k = s ∨ ∃ w ∈ s.unflushed,
      (s.writeLate n k).disk = s.disk.write w.path w.offset (w.bytes.take k) ∧
      (∀ w' ∈ (s.writeLate n k).unflushed, w' ∈ s.unflushed ∨
        w' = { w with offset := w.offset + k, bytes := w.bytes.drop k }) ∧
      (∀ w' ∈ s.unflushed, w' = w ∨ w' ∈ (s.writeLate n k).unflushed) ∧
      (w.bytes.drop k ≠ [] →
        { w with offset := w.offset + k, bytes := w.bytes.drop k } ∈ (s.writeLate n k).unflushed) := by
  unfold writeLate
  cases hw : s.unflushed[n]? with
  | none => exact .inl rfl
  | some w =>
      refine .inr ⟨w, List.mem_of_getElem? hw, rfl, ?_, ?_, ?_⟩
      · intro w' hw'
        dsimp only at hw'
        split at hw'
        · exact .inl (List.mem_of_mem_eraseIdx hw')
        · exact List.mem_or_eq_of_mem_set hw'
      · intro w' hw'
        obtain ⟨n', hn'⟩ := List.mem_iff_getElem?.1 hw'
        by_cases hsame : n' = n
        · subst hsame
          exact .inl (Option.some.inj (hn'.symm.trans hw))
        · right
          dsimp only
          split
          · exact List.mem_eraseIdx_iff_getElem?.2 ⟨n', hsame, hn'⟩
          · refine List.mem_of_getElem? (i := n') ?_
            rw [List.getElem?_set_ne (Ne.symm hsame)]
            exact hn'
      · intro hrest
        dsimp only
        rw [if_neg hrest]
        obtain ⟨hlt, -⟩ := List.getElem?_eq_some_iff.1 hw
        exact List.mem_set hlt _

theorem sameBits_handle (s : TorrentActor H) {m : TorrentMessage c} (h : KeepsBits m) :
    SameBits s (s.handle m) := by
  cases m with
  | incomingPiece => exact absurd h id
  | infoBytes => exact absurd h id
  | restoreSnapshot => exact absurd h id
  | setPieceStorage strategy created => exact sameBits_setPieceStorage strategy created s
  | setPieceManager preStarted => exact sameBits_setPieceManager preStarted s
  | setOutputPath path created => exact sameBits_setOutputPath path created s
  | background n k =>
      change SameBits s (s.writeLate n k)
      rw [writeLate_eq]
      exact ⟨rfl, rfl, rfl, rfl, rfl, rfl, rfl⟩
  | _ =>
      refine (sameData_handle s ?_).toBits
      exact trivial

/-! ### What a block can do -/

omit [DecidableEq H] in
/-- Writing a block touches the files alone. -/
theorem writeBlockToStorage_eq (c : Codec H) (index offset : ℕ) (block : Bytes) (env : WriteEnv)
    (s : TorrentActor H) :
    (s.writeBlockToStorage c index offset block env).1 =
      { s with
        disk := (s.writeBlockToStorage c index offset block env).1.disk
        unflushed := (s.writeBlockToStorage c index offset block env).1.unflushed } := by
  unfold writeBlockToStorage
  split
  · split <;> rfl
  · rfl
  · rfl

omit [DecidableEq H] in
theorem recvPiece_eq (index : ℕ) (data : Bytes) (env : BlockEnv) (s : TorrentActor H) :
    (s.recvPiece index data env).1 =
      { s with
        disk := (s.recvPiece index data env).1.disk
        unflushed := (s.recvPiece index data env).1.unflushed } := by
  unfold recvPiece
  split
  · rfl
  · split <;> rfl

/-- Validating and committing a piece touches the files alone. -/
theorem validateAndCommitPiece_eq (c : Codec H) (index : ℕ) (env : BlockEnv)
    (s : TorrentActor H) :
    (s.validateAndCommitPiece c index env).1 =
      { s with
        disk := (s.validateAndCommitPiece c index env).1.disk
        unflushed := (s.validateAndCommitPiece c index env).1.unflushed } := by
  unfold validateAndCommitPiece
  split
  · rfl
  · split
    · rfl
    · split
      · split
        · rfl
        · split
          · exact recvPiece_eq index _ env s
          · rfl
      · split <;> rfl
      · rfl

/-- A block passes the checks and has not been received before. -/
structure Accepts (s : TorrentActor H) (index offset length : ℕ) (dict : Info H)
    (expectedBlocks : ℕ) : Prop where
  info : s.infoDict = some dict
  check : checkBlock dict index offset length = some expectedBlocks
  fresh : s.pieceScheduler.isDuplicateBlock index (offset / blockSize) = false

/-- The number of pieces, none while the metadata is not known. -/
def pieceCount (s : TorrentActor H) : ℕ := (s.infoDict.map Info.pieceCount).getD 0

/-- **What handling a block can do to the data and to the lifecycle state**, one case for each way
through the handler. -/
inductive HandlesBlock (c : Codec H) (s : TorrentActor H) (index offset : ℕ) (block : Bytes)
    (env : BlockEnv) (t : TorrentActor H) : Prop
  | ignored (h : SameData s t) (hna : ¬ ∃ info n, s.Accepts index offset block.length info n)
      (hst : t.state = s.state)
  | unwritten {info : Info H} {n : ℕ} (ha : s.Accepts index offset block.length info n)
      (hw : (s.writeBlockToStorage c index offset block env.write).2 = false)
      (h : SameData (s.writeBlockToStorage c index offset block env.write).1 t)
      (hst : t.state = s.state)
  | recorded {info : Info H} {n : ℕ} {u : TorrentActor H}
      (ha : s.Accepts index offset block.length info n)
      (hw : (s.writeBlockToStorage c index offset block env.write).2 = true)
      (hu : u = (s.writeBlockToStorage c index offset block env.write).1.recordBlock index offset n)
      (hrow : u.pieceScheduler.isPieceComplete index = false) (h : SameData u t)
      (hst : t.state = s.state)
  | uncommitted {info : Info H} {n : ℕ} {u v : TorrentActor H}
      (ha : s.Accepts index offset block.length info n)
      (hw : (s.writeBlockToStorage c index offset block env.write).2 = true)
      (hu : u = (s.writeBlockToStorage c index offset block env.write).1.recordBlock index offset n)
      (hrow : u.pieceScheduler.isPieceComplete index = true)
      (hv : v = { u.mapScheduler (·.removePieceBlocks index) with outbox := v.outbox })
      (hc : (v.validateAndCommitPiece c index env).2 = false)
      (h : SameData (v.validateAndCommitPiece c index env).1 t) (hst : t.state = s.state)
  | committed {info : Info H} {n : ℕ} {u v : TorrentActor H}
      (ha : s.Accepts index offset block.length info n)
      (hw : (s.writeBlockToStorage c index offset block env.write).2 = true)
      (hu : u = (s.writeBlockToStorage c index offset block env.write).1.recordBlock index offset n)
      (hrow : u.pieceScheduler.isPieceComplete index = true)
      (hv : v = { u.mapScheduler (·.removePieceBlocks index) with outbox := v.outbox })
      (hc : (v.validateAndCommitPiece c index env).2 = true)
      (h : SameData ((v.validateAndCommitPiece c index env).1.completePiece index) t)
      (hst : t.state = if s.pieceCount ≤ (s.pieceScheduler.markPieceComplete index).nextPiece
        then .seeding else s.state)

omit [DecidableEq H] in
/-- Only the outbox records the history of a block. -/
theorem noteBlock_eq (index offset length : ℕ) (s : TorrentActor H) :
    s.noteBlock index offset length =
      { s with outbox := (s.noteBlock index offset length).outbox } := by
  unfold noteBlock
  split <;> rfl

omit [DecidableEq H] in
theorem cancelAssigned_eq (p : PeerId) (assigned : Option PeerId) (index offset length : ℕ)
    (sent : Bool) (s : TorrentActor H) :
    s.cancelAssigned p assigned index offset length sent =
      { s with outbox := (s.cancelAssigned p assigned index offset length sent).outbox } := by
  unfold cancelAssigned
  split
  · rfl
  · split
    · rfl
    · split
      · rfl
      · split <;> rfl

omit [DecidableEq H] in
theorem sameData_continueAfterPiece (p : PeerId) (env : BlockEnv) (s : TorrentActor H) :
    SameData s (s.continueAfterPiece p env) := by
  unfold continueAfterPiece
  split
  · have hstate : SameData s (s.transitionState .seeding) :=
      ⟨rfl, rfl, rfl, rfl, rfl, rfl, rfl, rfl, rfl, rfl, Or.inl rfl⟩
    exact hstate.trans (SameData.of_requesting (requesting_rechokePeers _ _))
  · exact SameData.of_requesting (requesting_fillPeerRequestWindow p _ s)

omit [DecidableEq H] in
theorem state_continueAfterPiece (p : PeerId) (env : BlockEnv) (s : TorrentActor H) :
    (s.continueAfterPiece p env).state =
      if s.pieceCount ≤ s.pieceScheduler.nextPiece then .seeding else s.state := by
  unfold continueAfterPiece pieceCount
  split
  · exact (requesting_rechokePeers _ _).state
  · exact (requesting_fillPeerRequestWindow p _ s).state

omit [DecidableEq H] in
/-- Recording a block leaves the complete pieces alone. -/
theorem recordBlock_pieces (s : TorrentActor H) (index offset n : ℕ) :
    (s.recordBlock index offset n).pieceScheduler.completedPieces
      = s.pieceScheduler.completedPieces ∧
    (s.recordBlock index offset n).pieceScheduler.nextPiece = s.pieceScheduler.nextPiece := by
  have h := PieceScheduler.sameProgress_takeBack
    { s.pieceScheduler with
      completedBlocks := s.pieceScheduler.completedBlocks.insert index
        (((s.pieceScheduler.completedBlocks.get? index).getD (List.replicate n false)).set
          (offset / blockSize) true) } index (offset / blockSize)
  rw [← PieceScheduler.markBlockComplete_fst] at h
  exact ⟨h.completedPieces, h.nextPiece⟩

/-- Where the first incomplete piece is after a piece has been marked depends on the pieces
alone. -/
theorem nextPiece_markPieceComplete {p q : PieceScheduler}
    (hp : q.completedPieces = p.completedPieces) (hn : q.nextPiece = p.nextPiece) (index : ℕ) :
    (q.markPieceComplete index).nextPiece = (p.markPieceComplete index).nextPiece := by
  change PieceScheduler.skipComplete ((q.completedPieces.set index true).drop q.nextPiece)
    q.nextPiece = PieceScheduler.skipComplete ((p.completedPieces.set index true).drop p.nextPiece)
    p.nextPiece
  rw [hp, hn]

/-- A block that fails a check, or has been received before, is ignored. -/
theorem handleIncomingPiece_of_not_accepts (c : Codec H) (s : TorrentActor H) (p : PeerId)
    {index offset : ℕ} {block : Bytes} (env : BlockEnv)
    (h : ¬ ∃ info n, s.Accepts index offset block.length info n) :
    s.handleIncomingPiece c p index offset block env = s := by
  unfold handleIncomingPiece
  cases hinfo : s.infoDict with
  | none => rfl
  | some info =>
      simp only
      cases hcheck : checkBlock info index offset block.length with
      | none => rfl
      | some n =>
          simp only
          split
          · rfl
          · rename_i hfresh
            exact absurd ⟨info, n, hinfo, hcheck, by simpa using hfresh⟩ h

/-- A block that passes the checks is written, and then recorded. -/
theorem handleIncomingPiece_of_accepts {c : Codec H} {s : TorrentActor H} {index offset n : ℕ}
    {block : Bytes} {info : Info H} (h : s.Accepts index offset block.length info n) (p : PeerId)
    (env : BlockEnv) :
    s.handleIncomingPiece c p index offset block env =
      if (s.writeBlockToStorage c index offset block env.write).2 = false then
        (s.writeBlockToStorage c index offset block env.write).1
      else
        (s.writeBlockToStorage c index offset block env.write).1.acceptBlock c p index offset
          block.length n env := by
  unfold handleIncomingPiece
  rw [h.info]
  simp only [h.check, h.fresh, Bool.false_eq_true, if_false]

omit [DecidableEq H] in
/-- The state in which a block has been recorded, up to the outbox. -/
theorem recorded_eq (p : PeerId) (assigned : Option PeerId) (index offset length n : ℕ)
    (sent : Bool) (s : TorrentActor H) :
    let recorded := ((s.noteBlock index offset length).recordBlock index offset n).cancelAssigned p
      assigned index offset length sent
    recorded = { s.recordBlock index offset n with outbox := recorded.outbox } := by
  simp only
  rw [cancelAssigned_eq, recordBlock, noteBlock_eq]
  rfl

/-- **Every way through the handler of a block.** -/
theorem handlesBlock (c : Codec H) (s : TorrentActor H) (p : PeerId) (index offset : ℕ)
    (block : Bytes) (env : BlockEnv) :
    HandlesBlock c s index offset block env (s.handleIncomingPiece c p index offset block env) := by
  by_cases hacc : ∃ info n, s.Accepts index offset block.length info n
  · obtain ⟨info, n, ha⟩ := hacc
    rw [handleIncomingPiece_of_accepts ha]
    have hwrite := writeBlockToStorage_eq c index offset block env.write s
    split
    · rename_i hw
      exact .unwritten ha hw (SameData.refl _) (by rw [hwrite])
    · rename_i hw
      have hw : (s.writeBlockToStorage c index offset block env.write).2 = true := by
        simpa using hw
      generalize hwritten : (s.writeBlockToStorage c index offset block env.write).1 = w at hwrite
      unfold acceptBlock
      simp only
      generalize (w.pieceScheduler.markBlockComplete index (offset / blockSize) n).2 = assigned
      have heq := recorded_eq p assigned index offset block.length n env.cancelSent w
      generalize TorrentActor.cancelAssigned p assigned index offset block.length
        env.cancelSent _ = recorded at heq ⊢
      simp only at heq
      have hrow : recorded.pieceScheduler = (w.recordBlock index offset n).pieceScheduler := by
        rw [heq]
      have hstate : recorded.state = s.state := by
        rw [heq, hwrite]
        rfl
      split
      · rename_i hcomplete
        rw [hrow] at hcomplete
        unfold pieceCompleted
        simp only
        generalize hv : (recorded.emit (.pieceReceived index)).mapScheduler
          (·.removePieceBlocks index) = v
        have hveq : v = { (w.recordBlock index offset n).mapScheduler
            (·.removePieceBlocks index) with outbox := v.outbox } := by
          rw [← hv, heq]
          rfl
        have hvstate : v.state = s.state := by
          rw [← hv]
          exact hstate
        have hcommit := validateAndCommitPiece_eq c index env v
        split
        · rename_i hc
          refine .uncommitted ha hw (by rw [hwritten]) hcomplete hveq hc
            (SameData.of_requesting (requesting_fillPeerRequestWindow p _ _)) ?_
          rw [← hvstate, (requesting_fillPeerRequestWindow p _ _).state, hcommit]
        · rename_i hc
          have hsame := sameData_broadcastToPeersBestEffort (.have index) env.broadcast
            ((v.validateAndCommitPiece c index env).1.completePiece index)
          refine .committed ha hw (by rw [hwritten]) hcomplete hveq (by simpa using hc)
            (hsame.trans (sameData_continueAfterPiece p env _)) ?_
          have hcount : (((v.validateAndCommitPiece c index env).1.completePiece
              index).broadcastToPeersBestEffort (.have index) env.broadcast).pieceCount
              = s.pieceCount := by
            rw [pieceCount, hsame.infoDict, hcommit, hveq, hwrite]
            rfl
          have hpieces := recordBlock_pieces w index offset n
          rw [hwrite] at hpieces
          have hnext : (((v.validateAndCommitPiece c index env).1.completePiece
              index).broadcastToPeersBestEffort (.have index) env.broadcast).pieceScheduler.nextPiece
              = (s.pieceScheduler.markPieceComplete index).nextPiece := by
            rw [hsame.nextPiece, hcommit, hveq, hwrite]
            exact nextPiece_markPieceComplete hpieces.1 hpieces.2 index
          rw [state_continueAfterPiece, hcount, hnext, ← hvstate, hcommit]
          rfl
      · rename_i hcomplete
        rw [hrow] at hcomplete
        have hreq := requesting_fillPeerRequestWindow p env.fill recorded
        have hsame : SameData (w.recordBlock index offset n) recorded := by
          rw [heq]
          exact ⟨rfl, rfl, rfl, rfl, rfl, rfl, rfl, rfl, rfl, rfl, Or.inl rfl⟩
        exact .recorded ha hw (by rw [hwritten]) (by simpa using hcomplete)
          (hsame.trans (SameData.of_requesting hreq)) (hreq.state.trans hstate)
  · rw [handleIncomingPiece_of_not_accepts c s p env hacc]
    exact .ignored (SameData.refl s) hacc rfl

/-- What a block leaves alone, up to what leaves the data alone. -/
theorem HandlesBlock.frame {c : Codec H} {s t : TorrentActor H} {index offset : ℕ} {block : Bytes}
    {env : BlockEnv} (h : HandlesBlock c s index offset block env t) :
    ∃ u, SameData u t ∧ u = { s with
      bitfield := u.bitfield, pieceScheduler := u.pieceScheduler, disk := u.disk,
      unflushed := u.unflushed, outbox := u.outbox } := by
  have hwrite := writeBlockToStorage_eq c index offset block env.write s
  cases h with
  | ignored h => exact ⟨s, h, rfl⟩
  | unwritten _ _ h =>
      refine ⟨_, h, ?_⟩
      rw [hwrite]
  | recorded _ _ hu _ h =>
      refine ⟨_, h, ?_⟩
      rw [hu, hwrite]
      rfl
  | uncommitted _ _ hu _ hv _ h =>
      refine ⟨_, h, ?_⟩
      rw [validateAndCommitPiece_eq, hv, hu, hwrite]
      rfl
  | committed _ _ hu _ hv _ h =>
      refine ⟨_, h, ?_⟩
      rw [validateAndCommitPiece_eq, hv, hu, hwrite]
      rfl

end TorrentActor

end Tortillas
