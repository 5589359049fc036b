/-
**The lifecycle of a torrent.**

A torrent that seeds has its metadata and all its pieces: that holds in every run.  A paused torrent
should stay paused until it is started or shut down.  The check before each message leaves it alone,
and so do most handlers; but a block that was asked for before the pause may complete the download
after it, and then the torrent seeds.

Main definitions:

* `TorrentActor.Full` — the metadata is known and every bit is set;
* `TorrentActor.FinishesDownload` — a block after which the download is complete;
* `EndsPause` — the inputs that take a paused torrent out of its pause other than by starting or
  stopping it.

Main results:

* `TorrentActor.state_handleIncomingPiece` — the state after a block;
* `TorrentActor.seedsFull_of_reach` — **a seeding torrent is full**, in every run;
* `paused_until_started_iff` — **exactly which inputs end a pause**.
-/

import Tortillas.Completion

set_option relaxedAutoImplicit false
set_option autoImplicit false

namespace Tortillas

namespace TorrentActor

variable {H : Type} {s t : TorrentActor H}

/-- The metadata is known and every bit of the bitfield is set. -/
structure Full (s : TorrentActor H) : Prop where
  info : s.infoDict.isSome = true
  bits : s.isFull = true

theorem SamePieces.full (h : SamePieces s t) (hs : s.Full) : t.Full := by
  refine ⟨?_, ?_⟩
  · rw [h.infoDict]
    exact hs.info
  · rw [isFull, h.bitfield]
    exact hs.bits

/-- A torrent that seeds is full. -/
def SeedsFull (s : TorrentActor H) : Prop := s.state = .seeding → s.Full

/-- The states that starting can lead to. -/
def Started (s : TorrentActor H) (state : TorrentState) : Prop :=
  state = .ready ∨ state = .resolvingMetadata ∨ state = .failed ∨ state = .downloading ∨
    state = .seeding ∧ s.Full

theorem Started.seedsFull {state : TorrentState} (h : s.Started state) (hst : state = .seeding) :
    s.Full := by
  subst hst
  rcases h with h | h | h | h | h
  · cases h
  · cases h
  · cases h
  · cases h
  · exact h.2

/-! ### Starting and stopping -/

/-- Starting does nothing in a state that cannot start, and leads to a started state otherwise. -/
theorem state_start (env : StartEnv) (s : TorrentActor H) :
    (s.state.canStart = false ∧ (s.start env).state = s.state) ∨
    (s.state.canStart = true ∧ s.Started (s.start env).state) := by
  unfold start
  split
  · rename_i hcan
    exact Or.inl ⟨hcan, rfl⟩
  · rename_i hcan
    refine Or.inr ⟨by simpa using hcan, ?_⟩
    cases hinfo : s.infoDict with
    | none => exact Or.inr (Or.inl rfl)
    | some info =>
        simp only
        cases hpre : preStart info env.preStart s.pieceManager with
        | none => exact Or.inr (Or.inr (Or.inl rfl))
        | some manager =>
            have hreq := (requesting_fillInitialWindows env.fillAll
              (s.sendReadyHooks.enterTransfer manager)).trans
              (requesting_rechokePeers env.rechoke _)
            simp only
            rw [hreq.state]
            change s.Started (if s.isFull = true then .seeding else .downloading)
            split
            · rename_i hfull
              refine Or.inr (Or.inr (Or.inr (Or.inr ⟨rfl, ?_, hfull⟩)))
              rw [hinfo]
              rfl
            · exact Or.inr (Or.inr (Or.inr (Or.inl rfl)))

theorem state_autostartCheck (env : StartEnv) (s : TorrentActor H) :
    (s.autostartCheck env).state = s.state ∨
    (s.state.canBecomeReady = true ∧ s.Started (s.autostartCheck env).state) := by
  unfold autostartCheck
  split
  · exact Or.inl rfl
  · rename_i hready
    have hbecome : s.state.canBecomeReady = true := by
      simp only [isReadyToStart, Bool.and_eq_false_iff, not_or, Bool.not_eq_false] at hready
      exact hready.2
    split
    · rcases state_start env { s with pendingStart := true } with ⟨-, hsame⟩ | ⟨-, hstarted⟩
      · exact Or.inl hsame
      · refine Or.inr ⟨hbecome, ?_⟩
        rcases hstarted with h | h | h | h | ⟨h, hinfo, hbits⟩
        · exact Or.inl h
        · exact Or.inr (Or.inl h)
        · exact Or.inr (Or.inr (Or.inl h))
        · exact Or.inr (Or.inr (Or.inr (Or.inl h)))
        · exact Or.inr (Or.inr (Or.inr (Or.inr ⟨h, hinfo, hbits⟩)))
    · exact Or.inr ⟨hbecome, Or.inl rfl⟩

theorem SeedsFull.autostartCheck (hs : s.SeedsFull) (env : StartEnv) :
    (s.autostartCheck env).SeedsFull := by
  intro hseed
  refine (sameData_autostartCheck env s).toBits.toPieces.full ?_
  rcases state_autostartCheck env s with hsame | ⟨-, hstarted⟩
  · exact hs (hsame ▸ hseed)
  · exact hstarted.seedsFull hseed

theorem SeedsFull.next (hs : s.SeedsFull) (env : StartEnv) : (s.next env).SeedsFull := by
  unfold TorrentActor.next
  have hclear : ({ s with outbox := [] } : TorrentActor H).SeedsFull := by
    intro hseed
    obtain ⟨hinfo, hbits⟩ := hs hseed
    exact ⟨hinfo, hbits⟩
  split
  · exact hclear
  · exact hclear.autostartCheck env

/-- **The check before a message does not end a pause.** -/
theorem state_autostartCheck_of_paused (env : StartEnv) (hs : s.state = .paused) :
    (s.autostartCheck env).state = .paused := by
  rcases state_autostartCheck env s with hsame | ⟨hbecome, -⟩
  · rw [hsame, hs]
  · rw [hs] at hbecome
    cases hbecome

theorem state_next_of_paused (env : StartEnv) (hs : s.state = .paused) :
    (s.next env).state = .paused := by
  unfold TorrentActor.next
  split
  · exact hs
  · exact state_autostartCheck_of_paused env hs

/-! ### Blocks -/

variable [DecidableEq H] {c : Codec H}

/-- A block after which the download is complete: it passes the checks and is written, it is the
last of its piece, the piece is verified and committed, and no piece is incomplete then. -/
structure FinishesDownload (c : Codec H) (s : TorrentActor H) (index offset : ℕ) (block : Bytes)
    (env : BlockEnv) (dict : Info H) (n : ℕ) : Prop where
  accepts : s.Accepts index offset block.length dict n
  written : (s.writeBlockToStorage c index offset block env.write).2 = true
  last : ((s.writeBlockToStorage c index offset block env.write).1.recordBlock index offset
    n).pieceScheduler.isPieceComplete index = true
  committed : ((((s.writeBlockToStorage c index offset block env.write).1.recordBlock index offset
    n).mapScheduler (·.removePieceBlocks index)).validateAndCommitPiece c index env).2 = true
  complete : dict.pieceCount ≤ (s.pieceScheduler.markPieceComplete index).nextPiece

/-- Committing a piece does not depend on the outbox. -/
theorem validateAndCommitPiece_outbox (c : Codec H) (index : ℕ) (env : BlockEnv)
    (s : TorrentActor H) (outbox : List Effect) :
    ({ s with outbox := outbox }.validateAndCommitPiece c index env).2 =
      (s.validateAndCommitPiece c index env).2 := by
  unfold validateAndCommitPiece getPiecePath recvPiece infoDict
  simp only
  split
  · rfl
  · split
    · rfl
    · split
      · split
        · rfl
        · split
          · split
            · rfl
            · split <;> rfl
          · rfl
      · split <;> rfl
      · rfl

/-- **The state after a block**: seeding if the block finishes the download, the old one
otherwise. -/
theorem state_handleIncomingPiece (p : PeerId) (index offset : ℕ) (block : Bytes) (env : BlockEnv)
    (s : TorrentActor H) :
    ((∃ dict n, s.FinishesDownload c index offset block env dict n) ∧
      (s.handleIncomingPiece c p index offset block env).state = .seeding) ∨
    (¬ (∃ dict n, s.FinishesDownload c index offset block env dict n) ∧
      (s.handleIncomingPiece c p index offset block env).state = s.state) := by
  -- The dictionary and the number of blocks are determined by the state and the block.
  have hsame : ∀ {dict dict' : Info H} {n n' : ℕ}, s.Accepts index offset block.length dict n →
      s.FinishesDownload c index offset block env dict' n' →
      s.FinishesDownload c index offset block env dict n := by
    intro dict dict' n n' ha hf
    cases ha.info.symm.trans hf.accepts.info
    cases ha.check.symm.trans hf.accepts.check
    exact hf
  cases handlesBlock c s p index offset block env with
  | ignored _ hna hst =>
      refine Or.inr ⟨?_, hst⟩
      rintro ⟨dict, n, hf⟩
      exact hna ⟨dict, n, hf.accepts⟩
  | unwritten _ hw _ hst =>
      refine Or.inr ⟨?_, hst⟩
      rintro ⟨dict, n, hf⟩
      cases hw.symm.trans hf.written
  | recorded ha _ hu hrow _ hst =>
      subst hu
      refine Or.inr ⟨?_, hst⟩
      rintro ⟨dict, n, hf⟩
      cases hrow.symm.trans (hsame ha hf).last
  | uncommitted ha _ hu _ hv hc _ hst =>
      subst hu
      refine Or.inr ⟨?_, hst⟩
      rintro ⟨dict, n, hf⟩
      rw [hv, validateAndCommitPiece_outbox] at hc
      cases hc.symm.trans (hsame ha hf).committed
  | @committed dict n u v ha hw hu hrow hv hc _ hst =>
      subst hu
      rw [hv, validateAndCommitPiece_outbox] at hc
      have hcount : s.pieceCount = dict.pieceCount := by
        rw [pieceCount, ha.info]
        rfl
      rw [hcount] at hst
      split at hst
      · rename_i hall
        exact Or.inl ⟨⟨dict, n, ha, hw, hrow, hc, hall⟩, hst⟩
      · rename_i hall
        refine Or.inr ⟨?_, hst⟩
        rintro ⟨dict', n', hf⟩
        exact hall (hsame ha hf).complete

/-! ### Seeding torrents -/

omit [DecidableEq H] in
/-- When no piece of the scheduler is incomplete, all bits are set. -/
theorem isFull_of_pieceCount_le (hs : s.BitsInv) (hpos : 0 < s.pieceCount)
    (hle : s.pieceCount ≤ s.pieceScheduler.nextPiece) : s.isFull = true := by
  have hlen : s.bitfield.length = s.pieceCount := hs.fits
  rcases hs.scheduler with hagree | hunset
  · rw [isFull, List.all_eq_true]
    intro bit hbit
    obtain ⟨i, hi, rfl⟩ := List.getElem_of_mem hbit
    have hget := hagree.next.complete i (by omega)
    rw [List.getElem?_eq_getElem hi] at hget
    exact Option.some.inj hget
  · have hnext := hunset.next
    omega

omit [DecidableEq H] in
theorem Full.completePiece (hs : s.Full) (index : ℕ) : (s.completePiece index).Full := by
  refine ⟨hs.info, ?_⟩
  have hbits := hs.bits
  rw [isFull, List.all_eq_true] at hbits ⊢
  intro bit hbit
  rcases List.mem_or_eq_of_mem_set hbit with hbit | rfl
  · exact hbits bit hbit
  · rfl

omit [DecidableEq H] in
theorem pieceCount_pos_of_checkBlock {dict : Info H} {index offset length n : ℕ}
    (h : checkBlock dict index offset length = some n) : index < dict.pieceCount := by
  unfold checkBlock at h
  split at h
  · cases h
  · omega

/-- A block keeps a torrent that seeds only when full. -/
theorem SeedsFull.handleIncomingPiece (hs : s.SeedsFull) (hb : s.BitsInv) (p : PeerId)
    (index offset : ℕ) (block : Bytes) (env : BlockEnv) :
    (s.handleIncomingPiece c p index offset block env).SeedsFull := by
  intro hseed
  have hb' : (s.handleIncomingPiece c p index offset block env).BitsInv :=
    hb.handleIncomingPiece p index offset block env
  have hstate := state_handleIncomingPiece (c := c) p index offset block env s
  rcases (handlesBlock c s p index offset block env).pieces with ⟨h, hst⟩ | ⟨v, hv, h, hst⟩
  · exact h.full (hs (hst ▸ hseed))
  · have hfull : s.state = .seeding →
        (s.handleIncomingPiece c p index offset block env).Full :=
      fun hold => h.full ((hv.full (hs hold)).completePiece index)
    split at hst
    · rename_i hle
      rcases hstate with ⟨⟨dict, n, hf⟩, -⟩ | ⟨-, hsame⟩
      · -- The last piece: the first clear bit is behind the end of the new bitfield.
        have hinfo : (s.handleIncomingPiece c p index offset block env).infoDict = some dict := by
          rw [h.infoDict]
          exact hv.infoDict.trans hf.accepts.info
        have hcount : (s.handleIncomingPiece c p index offset block env).pieceCount
            = dict.pieceCount := by
          rw [pieceCount, hinfo]
          rfl
        have hnext : (s.handleIncomingPiece c p index offset block env).pieceScheduler.nextPiece
            = (s.pieceScheduler.markPieceComplete index).nextPiece := by
          rw [h.nextPiece]
          exact nextPiece_markPieceComplete hv.completedPieces hv.nextPiece index
        have hpos := pieceCount_pos_of_checkBlock hf.accepts.check
        have hcomplete := hf.complete
        refine ⟨by rw [hinfo]; rfl, isFull_of_pieceCount_le hb' ?_ ?_⟩
        · omega
        · omega
      · exact hfull (hsame ▸ hseed)
    · exact hfull (hst ▸ hseed)

/-! ### The other messages -/

/-- Messages that set the lifecycle state by what they carry. -/
def SetsState : TorrentMessage c → Prop
  | .incomingPiece .. | .infoBytes .. | .restoreSnapshot .. | .setState .. | .stop .. => True
  | _ => False

omit [DecidableEq H] in
/-- What the handler of a message that does not set the state does to it: nothing, leave a failure,
or start. -/
def Moves (s : TorrentActor H) (state : TorrentState) : Prop :=
  state = s.state ∨ (s.state = .failed ∧ state = .paused) ∨
    (s.state.canBecomeReady = true ∧ s.Started state)

omit [DecidableEq H] in
/-- The check before a message, also after a change of what it looks at. -/
theorem moves_autostartCheck (h : SamePieces s t) (hst : t.state = s.state) (env : StartEnv) :
    s.Moves (t.autostartCheck env).state := by
  rcases state_autostartCheck env t with hsame | ⟨hready, hstarted⟩
  · exact Or.inl (hsame.trans hst)
  · refine Or.inr (Or.inr ⟨hst ▸ hready, ?_⟩)
    rcases hstarted with h' | h' | h' | h' | ⟨h', hinfo, hbits⟩
    · exact Or.inl h'
    · exact Or.inr (Or.inl h')
    · exact Or.inr (Or.inr (Or.inl h'))
    · exact Or.inr (Or.inr (Or.inr (Or.inl h')))
    · refine Or.inr (Or.inr (Or.inr (Or.inr ⟨h', h.infoDict ▸ hinfo, ?_⟩)))
      rw [isFull, h.bitfield] at hbits
      exact hbits

omit [DecidableEq H] in
theorem state_removePeer (s : TorrentActor H) (id : PeerId) :
    (s.removePeer id).1.state = s.state := by
  unfold removePeer
  split <;> rfl

/-- Messages after which the torrent may start by itself. -/
def ChecksStart : TorrentMessage c → Prop
  | .setAutoStart .. | .setSufficientPeers .. | .readyHook .. => True
  | _ => False

/-- Messages after which a failure may be left, because storage is configured anew. -/
def ConfiguresStorage : TorrentMessage c → Prop
  | .setPieceStorage .. | .setOutputPath .. => True
  | _ => False

/-- The other messages leave the state as it is. -/
theorem state_handle_of_plain (s : TorrentActor H) {m : TorrentMessage c} (h : ¬ SetsState m)
    (hchecks : ¬ ChecksStart m) (hconf : ¬ ConfiguresStorage m) : (s.handle m).state = s.state := by
  cases m with
  | incomingPiece => exact absurd trivial h
  | infoBytes => exact absurd trivial h
  | restoreSnapshot => exact absurd trivial h
  | setState => exact absurd trivial h
  | stop => exact absurd trivial h
  | setAutoStart => exact absurd trivial hchecks
  | setSufficientPeers => exact absurd trivial hchecks
  | readyHook => exact absurd trivial hchecks
  | setPieceStorage => exact absurd trivial hconf
  | setOutputPath => exact absurd trivial hconf
  | peerConnected id ref =>
      change (s.insertPeer id ref).state = s.state
      rcases insertPeer_cases id ref s with heq | ⟨p, -, -, heq⟩
      · rw [heq]
      · rw [heq]
        rfl
  | peerRejectedRequest p index offset env =>
      exact ((requesting_releasePeerRequest s p index offset).trans
        (requesting_fillPeerRequestWindow p env _)).state
  | peerReady id available alive env =>
      simp only [handle, peerReady]
      split
      · exact (requesting_fillPeerRequestWindow id env _).state
      · rfl
  | disconnectPeer id env =>
      simp only [handle]
      split
      · exact (requesting_fillAllPeerRequestWindows env _).state.trans (state_removePeer s id)
      · exact state_removePeer s id
  | killPeer id env =>
      exact (requesting_fillAllPeerRequestWindows env _).state.trans (state_removePeer s id)
  | setPieceManager preStarted =>
      change (s.setPieceManager preStarted).state = s.state
      rcases setPieceManager_cases preStarted s with heq | heq
      · rw [heq]
      · rw [heq]
  | rechoke env => exact (requesting_rechokePeers env s).state
  | query => rfl
  | sharedHave id index =>
      simp only [handle]
      split <;> rfl
  | background n k =>
      change (s.writeLate n k).state = s.state
      rw [writeLate_eq]

/-- **The messages that neither set the state nor check for a start** leave it as it is, or leave a
failure. -/
theorem state_handle_of_quiet (s : TorrentActor H) {m : TorrentMessage c} (h : ¬ SetsState m)
    (hchecks : ¬ ChecksStart m) :
    (s.handle m).state = s.state ∨ (s.state = .failed ∧ (s.handle m).state = .paused) := by
  have hfailed : ∀ t : TorrentActor H, t.state = s.state →
      t.leaveFailed.state = s.state ∨ (s.state = .failed ∧ t.leaveFailed.state = .paused) := by
    intro t ht
    unfold leaveFailed
    split
    · rename_i hstate
      exact Or.inr ⟨ht ▸ hstate, rfl⟩
    · exact Or.inl ht
  cases m with
  | setPieceStorage strategy created =>
      change (s.setPieceStorage strategy created).state = _ ∨
        (_ ∧ (s.setPieceStorage strategy created).state = _)
      rcases setPieceStorage_cases strategy created s with heq | heq
      · rw [heq]
        exact Or.inl rfl
      · rw [heq]
        exact hfailed _ rfl
  | setOutputPath path created =>
      change (s.setOutputPath path created).state = _ ∨
        (_ ∧ (s.setOutputPath path created).state = _)
      rcases setOutputPath_cases path created s with heq | ⟨manager, -, heq⟩
      · rw [heq]
        exact Or.inl rfl
      · rw [heq]
        exact hfailed _ rfl
  | _ => exact Or.inl (state_handle_of_plain s h hchecks id)

/-- **The messages that do not set the state.** -/
theorem moves_handle (s : TorrentActor H) {m : TorrentMessage c} (h : ¬ SetsState m) :
    s.Moves (s.handle m).state := by
  by_cases hchecks : ChecksStart m
  · cases m with
    | setAutoStart auto env =>
        simp only [handle]
        split
        · exact Or.inl rfl
        · exact moves_autostartCheck (s := s) (t := { s with autostart := auto })
            ⟨rfl, rfl, rfl, rfl⟩ rfl env
    | setSufficientPeers peers env =>
        simp only [handle]
        split
        · exact Or.inl rfl
        · exact moves_autostartCheck (s := s) (t := { s with sufficientPeers := peers })
            ⟨rfl, rfl, rfl, rfl⟩ rfl env
    | readyHook env =>
        simp only [handle, readyHookMessage]
        split
        · exact Or.inl rfl
        · split
          · exact Or.inl rfl
          · exact moves_autostartCheck (s := s) (t := { s with readyHook := s.readyHook + 1 })
              ⟨rfl, rfl, rfl, rfl⟩ rfl env
    | _ => exact absurd hchecks id
  · rcases state_handle_of_quiet s h hchecks with hsame | hfailed
    · exact Or.inl hsame
    · exact Or.inr (Or.inl hfailed)

omit [DecidableEq H] in
theorem restoredState_ne_seeding (state : TorrentState) : restoredState state ≠ .seeding := by
  cases state <;> exact fun h => nomatch h

/-- **One step keeps a torrent that seeds only when full.** -/
theorem SeedsFull.step (hs : s.SeedsFull) (hb : s.BitsInv) {i : Input c} :
    (s.step i).SeedsFull := by
  have hs' : (s.next i.check).SeedsFull := hs.next i.check
  have hb' : (s.next i.check).BitsInv := (sameData_next i.check s).toBits.toPieces.bitsInv hb
  unfold TorrentActor.step
  generalize s.next i.check = u at hs' hb'
  have hmoves := moves_handle (c := c) u (m := i.message)
  generalize i.message = m at hmoves
  cases m with
  | incomingPiece p index offset block env => exact hs'.handleIncomingPiece hb' p index offset block env
  | infoBytes bytes env =>
      intro hseed
      rcases infoBytes_cases c bytes env u with heq | ⟨info, hnone, -, -, heq⟩
      · change (u.infoBytes c bytes env).Full
        change (u.infoBytes c bytes env).state = .seeding at hseed
        rw [heq] at hseed ⊢
        exact hs' hseed
      · -- Without metadata the torrent does not seed, and resolving it does not make it seed.
        change (u.infoBytes c bytes env).state = .seeding at hseed
        rw [heq] at hseed
        change (if u.state = .resolvingMetadata then TorrentState.added else u.state) = .seeding
          at hseed
        split at hseed
        · cases hseed
        · have hinfo := (hs' hseed).info
          rw [hnone] at hinfo
          cases hinfo
  | restoreSnapshot v => exact fun hseed => absurd hseed (restoredState_ne_seeding _)
  | setState state start stop =>
      intro hseed
      have hstart : (u.start start).state = .seeding → (u.start start).Full := by
        intro hseed
        refine (sameData_start start u).toBits.toPieces.full ?_
        rcases state_start start u with ⟨-, hsame⟩ | ⟨-, hstarted⟩
        · exact hs' (hsame ▸ hseed)
        · exact hstarted.seedsFull hseed
      cases state with
      | downloading => exact hstart hseed
      | seeding => exact hstart hseed
      | paused =>
          change (u.stopTransfer stop).state = .seeding at hseed
          unfold stopTransfer at hseed
          split at hseed
          · rename_i hpaused
            cases hpaused.symm.trans hseed
          · split at hseed <;> cases hseed
      | _ => cases hseed
  | stop normal =>
      intro hseed
      cases normal <;> cases hseed
  | _ =>
      intro hseed
      refine (sameBits_handle u ?_).toPieces.full ?_
      · exact trivial
      · rcases hmoves id with hsame | ⟨-, hpaused⟩ | ⟨-, hstarted⟩
        · exact hs' (hsame ▸ hseed)
        · cases hpaused.symm.trans hseed
        · exact hstarted.seedsFull hseed

/-- **A seeding torrent is full**, in every run. -/
theorem seedsFull_of_reach {G : TorrentActor H → Input c → Prop}
    (h : (torrentSystem c).Reach G s) : s.SeedsFull := by
  refine h.strengthen (fun _ hr => bitsInv_of_reach hr) ?_ ?_
  · rintro s ⟨args, disk, hstart⟩ hseed
    unfold onStart at hstart
    obtain ⟨hash, -, rfl⟩ := Option.map_eq_some_iff.1 hstart
    change (if _ then TorrentState.added else .resolvingMetadata) = .seeding at hseed
    split at hseed <;> cases hseed
  · rintro s i t hb hs - ⟨-, rfl⟩
    exact hs.step hb

end TorrentActor

/-! ### Paused torrents -/

section Pause

variable {H : Type} [DecidableEq H] {c : Codec H}

/-- An explicit request to start, or the end of the actor. -/
def StartsOrStops : TorrentMessage c → Prop
  | .setState state _ _ => state = .downloading ∨ state = .seeding
  | .stop _ => True
  | _ => False

/-- The inputs that end a pause without being a request to start or the end of the actor: the
state is set to something else, a snapshot of a torrent that had not run is restored, or a block
finishes the download. -/
def EndsPause (s : TorrentActor H) (i : TorrentActor.Input c) : Prop :=
  match i.message with
  | .setState state _ _ => state ≠ .downloading ∧ state ≠ .seeding ∧ state ≠ .paused
  | .restoreSnapshot v => TorrentActor.restoredState v.snapshot.state ≠ .paused
  | .incomingPiece _ index offset block env =>
      ∃ dict n, (s.next i.check).FinishesDownload c index offset block env dict n
  | _ => False

namespace TorrentActor

variable {s : TorrentActor H}

omit [DecidableEq H] in
theorem state_stopTransfer (env : BroadcastEnv) (s : TorrentActor H) :
    (s.stopTransfer env).state = .paused := by
  unfold stopTransfer
  split
  · assumption
  · split <;> rfl

/-- **What ends a pause**: an explicit request to start, the end of the actor, or one of the inputs
of `EndsPause`; the latter always do. -/
theorem state_step_of_paused (hs : s.state = .paused) (i : Input c) :
    (¬ EndsPause s i → (s.step i).state ≠ .paused → StartsOrStops i.message) ∧
    (EndsPause s i → (s.step i).state ≠ .paused ∧ ¬ StartsOrStops i.message) := by
  have hpaused : (s.next i.check).state = .paused := state_next_of_paused i.check hs
  have hmoves := moves_handle (c := c) (s.next i.check) (m := i.message)
  unfold TorrentActor.step EndsPause
  generalize i.message = m at hmoves
  cases m with
  | setState state start stop =>
      cases state with
      | downloading => exact ⟨fun _ _ => Or.inl rfl, fun h => absurd rfl h.1⟩
      | seeding => exact ⟨fun _ _ => Or.inr rfl, fun h => absurd rfl h.2.1⟩
      | paused =>
          refine ⟨fun _ h => absurd (state_stopTransfer stop _) h, fun h => absurd rfl h.2.2⟩
      | _ =>
          refine ⟨fun h => absurd ⟨?_, ?_, ?_⟩ h, fun _ => ⟨?_, ?_⟩⟩
          · exact nofun
          · exact nofun
          · exact nofun
          · exact nofun
          · exact nofun
  | stop normal => exact ⟨fun _ _ => trivial, fun h => absurd h id⟩
  | restoreSnapshot v =>
      -- the state comes from the snapshot, whatever it was before
      exact ⟨fun h hne => absurd hne h, fun h => ⟨h, id⟩⟩
  | incomingPiece p index offset block env =>
      -- the block that completes the torrent makes it seed, paused or not
      rcases state_handleIncomingPiece (c := c) p index offset block env (s.next i.check) with
        ⟨hdone, hst⟩ | ⟨hdone, hst⟩
      · refine ⟨fun h => absurd hdone h, fun _ => ⟨?_, id⟩⟩
        intro h
        cases hst.symm.trans h
      · exact ⟨fun _ hne => absurd (hst.trans hpaused) hne, fun h => absurd h hdone⟩
  | infoBytes bytes env =>
      refine ⟨fun _ hne => absurd ?_ hne, fun h => absurd h id⟩
      change ((s.next i.check).infoBytes c bytes env).state = .paused
      rcases infoBytes_cases c bytes env (s.next i.check) with heq | ⟨info, -, -, -, heq⟩
      · rw [heq]
        exact hpaused
      · rw [heq]
        refine Eq.trans (if_neg ?_) hpaused
        rw [hpaused]
        exact nofun
  | _ =>
      refine ⟨fun _ hne => absurd ?_ hne, fun h => absurd h id⟩
      rcases hmoves id with hsame | ⟨hfailed, -⟩ | ⟨hready, -⟩
      · exact hsame.trans hpaused
      · cases hpaused.symm.trans hfailed
      · rw [hpaused] at hready
        cases hready

end TorrentActor

/-- **In every run a seeding torrent has its metadata and all its pieces, and a paused torrent stays
paused until it is started or its actor ends, exactly as long as no input of `EndsPause` comes.** -/
theorem paused_until_started_iff {s : TorrentActor H}
    (h : (torrentSystem c).Reach (fun _ _ => True) s) :
    (s.state = .seeding → ∃ info, s.infoDict = some info ∧
      s.bitfield.length = info.pieceCount ∧ ∀ bit ∈ s.bitfield, bit = true) ∧
    (s.state = .paused →
      (∀ i : TorrentActor.Input c,
        ((s.step i).state ≠ .paused → StartsOrStops i.message) ↔ ¬ EndsPause s i) ∧
      ∀ t, ((torrentSystem c).startingAt s).Reach
        (fun u i => ¬ EndsPause u i ∧ ¬ StartsOrStops i.message) t → t.state = .paused) := by
  refine ⟨?_, ?_⟩
  · intro hseed
    obtain ⟨hinfo, hbits⟩ := TorrentActor.seedsFull_of_reach h hseed
    obtain ⟨info, hinfo⟩ := Option.isSome_iff_exists.1 hinfo
    refine ⟨info, hinfo, ?_, ?_⟩
    · have hfits := (TorrentActor.bitsInv_of_reach h).fits
      rw [TorrentActor.BitfieldFits, TorrentActor.pieceCount, hinfo] at hfits
      exact hfits
    · rw [TorrentActor.isFull, List.all_eq_true] at hbits
      exact hbits
  · intro hpaused
    refine ⟨?_, ?_⟩
    · intro i
      obtain ⟨hkeep, hend⟩ := TorrentActor.state_step_of_paused hpaused i
      refine ⟨?_, hkeep⟩
      intro honly hends
      obtain ⟨hleft, hnot⟩ := hend hends
      exact hnot (honly hleft)
    · intro t ht
      refine ht.invariant (I := fun t => t.state = .paused) ?_ ?_
      · rintro u rfl
        exact hpaused
      · rintro u i v hu ⟨hends, hstarts⟩ ⟨-, rfl⟩
        by_contra hne
        exact hstarts ((TorrentActor.state_step_of_paused hu i).1 hends hne)

/-- The sample torrent, paused after it has asked for its only block. -/
def Sample.paused : TorrentActor Bytes :=
  (Sample.downloading .inFile).step
    (Sample.input (.setState .paused Sample.startEnv Sample.broadcastEnv))

theorem Sample.reach_paused :
    (torrentSystem Sample.codec).Reach (fun _ _ => True) Sample.paused :=
  Sample.reach_step (.setState .paused Sample.startEnv Sample.broadcastEnv)
    (Sample.reach_downloading .inFile) trivial trivial

theorem paused_until_started_sample :
    Sample.paused.state = .paused ∧ ∀ i : TorrentActor.Input Sample.codec,
      ((Sample.paused.step i).state ≠ .paused → StartsOrStops i.message) ↔
        ¬ EndsPause Sample.paused i :=
  ⟨by decide +kernel, ((paused_until_started_iff Sample.reach_paused).2 (by decide +kernel)).1⟩

/-- The block that was asked for comes after the pause: the paused torrent seeds. -/
theorem paused_torrent_seeds_after_late_block :
    ∃ (s : TorrentActor Bytes) (i : TorrentActor.Input Sample.codec),
      (torrentSystem Sample.codec).Reach (fun _ _ => True) s ∧ s.RestoresOwn i.message ∧
      s.state = .paused ∧ ¬ StartsOrStops i.message ∧ (s.step i).state = .seeding := by
  refine ⟨Sample.paused, Sample.input (.incomingPiece Sample.peer 0 0 [7] Sample.blockEnv),
    Sample.reach_paused, trivial, by decide +kernel, id, by decide +kernel⟩

end Pause

end Tortillas
