/-
**What a handler does to peers, requests and outbox.**

The handlers of the torrent actor are compositions of a few changes to the registered peers, to the
scheduler and to the outbox: blocks are requested and released, a peer is dropped, a block is
recorded, a piece is found received and is completed.  `Change` lists them, and
`changes_handle` says that every handler is a sequence of them, so that an invariant of the swarm is
proved with one case for each change and not with one for each handler.

Some messages do more: a peer is registered, a peer that is ready may be unknown, a resolved
dictionary and a pause are told to all peers, and a restored snapshot replaces the scheduler.  What
these do is stated apart.

Main definitions:

* `TorrentActor.Quiet` — peers, scheduler and outbox are untouched;
* `TorrentActor.Change`, `TorrentActor.Changes` — one change, and a sequence of changes.

Main results:

* `TorrentActor.changes_next` — the check before a message is a sequence of changes;
* `TorrentActor.changes_handleIncomingPiece` — so is the handling of a block;
* `TorrentActor.changes_handle` — **and that of every message but these.**
-/

import Tortillas.TorrentFrames
import Mathlib.Logic.Relation

set_option relaxedAutoImplicit false
set_option autoImplicit false

namespace Tortillas

namespace TorrentActor

variable {H : Type}

/-- Peers, scheduler and outbox are untouched, and a known info dictionary stays known. -/
structure Quiet (s t : TorrentActor H) : Prop where
  peers : t.peers = s.peers
  scheduler : t.pieceScheduler = s.pieceScheduler
  outbox : t.outbox = s.outbox
  infoDict : t.infoDict = s.infoDict

/-- The state after a block from `p` has been recorded, with its history in the outbox, and the
peer it was assigned to told. -/
def recorded (p : PeerId) (index offset length n : ℕ) (sent : Bool) (s : TorrentActor H) :
    TorrentActor H :=
  ((s.noteBlock index offset length).recordBlock index offset n).cancelAssigned p
    (s.pieceScheduler.markBlockComplete index (offset / blockSize) n).2 index offset length sent

/-- What is there after a block has been recorded, but for the outbox. -/
theorem recorded_frame (p : PeerId) (index offset length n : ℕ) (sent : Bool)
    (s : TorrentActor H) :
    s.recorded p index offset length n sent =
      { s.recordBlock index offset n with
        outbox := (s.recorded p index offset length n sent).outbox } :=
  recorded_eq p _ index offset length n sent s

/-- The state after a piece has been found to be fully received. -/
def received (index : ℕ) (s : TorrentActor H) : TorrentActor H :=
  (s.emit (.pieceReceived index)).mapScheduler (·.removePieceBlocks index)

/-- One change to peers, scheduler and outbox.  `R` says which blocks may be recorded. -/
inductive Change (R : ℕ → ℕ → ℕ → Prop) : TorrentActor H → TorrentActor H → Prop
  | quiet {s t : TorrentActor H} (h : Quiet s t) : Change R s t
  | request {s t : TorrentActor H} (h : Requesting s t) : Change R s t
  | available {s : TorrentActor H} (id : PeerId) (bits : List Bool)
      (h : s.peers.get? id ≠ none ∨ s.pieceScheduler.peerAvailability.get? id ≠ none) :
      Change R s (s.mapScheduler (·.updatePeerAvailability id bits))
  | remove {s : TorrentActor H} (id : PeerId) : Change R s (s.removePeer id).1
  | lose {s : TorrentActor H} (index : ℕ) (env : BroadcastEnv) :
      Change R s (s.broadcastToPeersBestEffort (.have index) env)
  | record {s : TorrentActor H} {index offset length n : ℕ} {info : Info H} (p : PeerId)
      (sent : Bool) (ha : s.Accepts index offset length info n) (hR : R index offset length) :
      Change R s (s.recorded p index offset length n sent)
  | receive {s : TorrentActor H} {index : ℕ}
      (h : s.pieceScheduler.isPieceComplete index = true) : Change R s (s.received index)
  | complete {s : TorrentActor H} (index : ℕ) : Change R s (s.completePiece index)
  | stop {s : TorrentActor H} (normal : Bool) : Change R s (s.onStop normal)

/-- A sequence of changes. -/
abbrev Changes (R : ℕ → ℕ → ℕ → Prop) : TorrentActor H → TorrentActor H → Prop :=
  Relation.ReflTransGen (Change R)

variable {R : ℕ → ℕ → ℕ → Prop}

theorem Quiet.changes {s t : TorrentActor H} (h : Quiet s t) : Changes R s t := .single (.quiet h)

theorem Requesting.changes {s t : TorrentActor H} (h : Requesting s t) : Changes R s t :=
  .single (.request h)

theorem changes_removePeer (id : PeerId) (s : TorrentActor H) : Changes R s (s.removePeer id).1 :=
  .single (.remove id)

/-- What every change keeps, every sequence of changes keeps. -/
theorem Changes.invariant {I : TorrentActor H → Prop} (hstep : ∀ s t, Change R s t → I s → I t)
    {s t : TorrentActor H} (h : Changes R s t) (hs : I s) : I t := by
  induction h with
  | refl => exact hs
  | tail _ hchange ih => exact hstep _ _ hchange ih

/-! ### Starting -/

theorem changes_start (env : StartEnv) (s : TorrentActor H) : Changes R s (s.start env) := by
  unfold start
  split
  · exact .refl
  · cases hinfo : s.infoDict with
    | none => exact Quiet.changes ⟨rfl, rfl, rfl, rfl⟩
    | some info =>
        simp only
        cases preStart info env.preStart s.pieceManager with
        | none => exact Quiet.changes ⟨rfl, rfl, rfl, rfl⟩
        | some manager =>
            have henter : Quiet s (s.sendReadyHooks.enterTransfer manager) :=
              ⟨rfl, rfl, rfl, rfl⟩
            exact henter.changes.trans ((requesting_fillInitialWindows _ _).trans
              (requesting_rechokePeers _ _)).changes

theorem changes_autostartCheck (env : StartEnv) (s : TorrentActor H) :
    Changes R s (s.autostartCheck env) := by
  have hend : ∀ t : TorrentActor H, Quiet t { t with pendingStart := false } :=
    fun t => ⟨rfl, rfl, rfl, rfl⟩
  unfold autostartCheck
  split
  · exact (hend s).changes
  · split
    · have hbegin : Quiet s { s with pendingStart := true } := ⟨rfl, rfl, rfl, rfl⟩
      exact (hbegin.changes.trans (changes_start env _)).trans (hend _).changes
    · exact Quiet.changes ⟨rfl, rfl, rfl, rfl⟩

/-- **The check before a message.** -/
theorem changes_next (env : StartEnv) (s : TorrentActor H) :
    Changes R { s with outbox := [] } (s.next env) := by
  unfold next
  split
  · exact .refl
  · exact changes_autostartCheck env _

theorem peers_start (env : StartEnv) (s : TorrentActor H) : (s.start env).peers = s.peers := by
  unfold start
  split
  · rfl
  · cases s.infoDict with
    | none => rfl
    | some info =>
        simp only
        cases preStart info env.preStart s.pieceManager with
        | none => rfl
        | some manager =>
            exact ((requesting_fillInitialWindows _ _).trans (requesting_rechokePeers _ _)).peers

/-- The check before a message neither registers nor drops a peer. -/
theorem peers_next (env : StartEnv) (s : TorrentActor H) : (s.next env).peers = s.peers := by
  unfold next autostartCheck
  split
  · rfl
  · split
    · rfl
    · split
      · exact peers_start env _
      · rfl

/-! ### Blocks -/

variable [DecidableEq H] {c : Codec H}

omit [DecidableEq H] in
theorem changes_continueAfterPiece (p : PeerId) (env : BlockEnv) (s : TorrentActor H) :
    Changes R s (s.continueAfterPiece p env) := by
  unfold continueAfterPiece
  split
  · have hstate : Quiet s (s.transitionState .seeding) := ⟨rfl, rfl, rfl, rfl⟩
    exact hstate.changes.trans (requesting_rechokePeers _ _).changes
  · exact (requesting_fillPeerRequestWindow p _ s).changes

theorem quiet_validateAndCommitPiece (c : Codec H) (index : ℕ) (env : BlockEnv)
    (s : TorrentActor H) : Quiet s (s.validateAndCommitPiece c index env).1 := by
  rw [validateAndCommitPiece_eq]
  exact ⟨rfl, rfl, rfl, rfl⟩

/-- From the moment a piece is found to be fully received. -/
theorem changes_pieceCompleted (c : Codec H) (p : PeerId) (index : ℕ) (env : BlockEnv)
    (s : TorrentActor H) (h : s.pieceScheduler.isPieceComplete index = true) :
    Changes R s ((s.emit (.pieceReceived index)).pieceCompleted c p index env) := by
  have hreceived : Changes R s (s.received index) := .single (.receive h)
  have hcommit := hreceived.trans
    (quiet_validateAndCommitPiece c index env (s.received index)).changes
  unfold pieceCompleted
  simp only
  split
  · exact hcommit.trans (requesting_fillPeerRequestWindow p _ _).changes
  · exact ((hcommit.tail (.complete index)).tail (.lose index env.broadcast)).trans
      (changes_continueAfterPiece p env _)

/-- From the moment a block has been recorded. -/
theorem changes_acceptBlock (c : Codec H) (p : PeerId) (index offset length n : ℕ) (env : BlockEnv)
    (s : TorrentActor H) :
    Changes R (s.recorded p index offset length n env.cancelSent)
      (s.acceptBlock c p index offset length n env) := by
  unfold acceptBlock
  simp only
  split
  · rename_i hcomplete
    exact changes_pieceCompleted c p index env _ hcomplete
  · exact (requesting_fillPeerRequestWindow p _ _).changes

omit [DecidableEq H] in
theorem quiet_writeBlockToStorage (c : Codec H) (index offset : ℕ) (block : Bytes)
    (env : WriteEnv) (s : TorrentActor H) :
    Quiet s (s.writeBlockToStorage c index offset block env).1 := by
  rw [writeBlockToStorage_eq]
  exact ⟨rfl, rfl, rfl, rfl⟩

omit [DecidableEq H] in
theorem Quiet.accepts {s t : TorrentActor H} {index offset length n : ℕ} {info : Info H}
    (h : Quiet s t) (ha : s.Accepts index offset length info n) :
    t.Accepts index offset length info n :=
  ⟨h.infoDict.trans ha.info, ha.check, by rw [h.scheduler]; exact ha.fresh⟩

/-- **The handling of a block**, which records no other block. -/
theorem changes_handleIncomingPiece (c : Codec H) (p : PeerId) (index offset : ℕ) (block : Bytes)
    (env : BlockEnv) (s : TorrentActor H) (hR : R index offset block.length) :
    Changes R s (s.handleIncomingPiece c p index offset block env) := by
  by_cases hacc : ∃ info n, s.Accepts index offset block.length info n
  · obtain ⟨info, n, ha⟩ := hacc
    rw [handleIncomingPiece_of_accepts ha]
    have hquiet := quiet_writeBlockToStorage c index offset block env.write s
    split
    · exact hquiet.changes
    · exact (hquiet.changes.tail (.record p env.cancelSent (hquiet.accepts ha) hR)).trans
        (changes_acceptBlock c p index offset block.length n env _)
  · rw [handleIncomingPiece_of_not_accepts c s p env hacc]

/-! ### Messages -/

/-- The messages that do more than `Changes` says. -/
def Special : TorrentMessage c → Prop
  | .peerConnected .. | .peerReady .. | .infoBytes .. | .setState .. | .restoreSnapshot .. => True
  | _ => False

omit [DecidableEq H] in
theorem quiet_leaveFailed {s t : TorrentActor H} (h : Quiet s t) : Quiet s t.leaveFailed := by
  unfold leaveFailed
  split
  · exact ⟨h.peers, h.scheduler, h.outbox, h.infoDict⟩
  · exact h

/-- The block a message brings. -/
def Brings : TorrentMessage c → ℕ → ℕ → ℕ → Prop
  | .incomingPiece _ index offset block _ => fun i o l => i = index ∧ o = offset ∧ l = block.length
  | _ => fun _ _ _ => False

/-- **Every message that is not special is a sequence of changes**, which record no block but the
one the message brings. -/
theorem changes_handle (s : TorrentActor H) {m : TorrentMessage c} (h : ¬ Special m) :
    Changes (Brings m) s (s.handle m) := by
  cases m with
  | peerConnected => exact absurd trivial h
  | peerReady => exact absurd trivial h
  | infoBytes => exact absurd trivial h
  | setState => exact absurd trivial h
  | restoreSnapshot => exact absurd trivial h
  | incomingPiece p index offset block env =>
      exact changes_handleIncomingPiece c p index offset block env s ⟨rfl, rfl, rfl⟩
  | peerRejectedRequest p index offset env =>
      exact ((requesting_releasePeerRequest s p index offset).trans
        (requesting_fillPeerRequestWindow p env _)).changes
  | disconnectPeer id env =>
      simp only [handle]
      split
      · exact (changes_removePeer id s).trans (requesting_fillAllPeerRequestWindows env _).changes
      · exact changes_removePeer id s
  | killPeer id env =>
      exact (changes_removePeer id s).trans (requesting_fillAllPeerRequestWindows env _).changes
  | setPieceStorage strategy created =>
      change Changes _ s (s.setPieceStorage strategy created)
      rcases setPieceStorage_cases strategy created s with heq | heq
      · rw [heq]
      · rw [heq]
        refine (quiet_leaveFailed ?_).changes
        exact ⟨rfl, rfl, rfl, rfl⟩
  | setPieceManager preStarted =>
      change Changes _ s (s.setPieceManager preStarted)
      rcases setPieceManager_cases preStarted s with heq | heq
      · rw [heq]
      · rw [heq]
        exact Quiet.changes ⟨rfl, rfl, rfl, rfl⟩
  | setOutputPath path created =>
      change Changes _ s (s.setOutputPath path created)
      rcases setOutputPath_cases path created s with heq | ⟨manager, -, heq⟩
      · rw [heq]
      · rw [heq]
        refine (quiet_leaveFailed ?_).changes
        exact ⟨rfl, rfl, rfl, rfl⟩
  | setAutoStart auto env =>
      have hset : Quiet s { s with autostart := auto } := ⟨rfl, rfl, rfl, rfl⟩
      simp only [handle]
      split
      · exact hset.changes
      · exact hset.changes.trans (changes_autostartCheck env _)
  | setSufficientPeers peers env =>
      have hset : Quiet s { s with sufficientPeers := peers } := ⟨rfl, rfl, rfl, rfl⟩
      simp only [handle]
      split
      · exact hset.changes
      · exact hset.changes.trans (changes_autostartCheck env _)
  | rechoke env => exact (requesting_rechokePeers env s).changes
  | readyHook env =>
      have hset : Quiet s { s with readyHook := s.readyHook + 1 } := ⟨rfl, rfl, rfl, rfl⟩
      simp only [handle, readyHookMessage]
      split
      · exact .refl
      · split
        · exact .refl
        · exact hset.changes.trans (changes_autostartCheck env _)
  | query => exact .refl
  | sharedHave id index =>
      simp only [handle]
      split
      · exact .refl
      · rename_i bits hbits
        exact .single (.available id _ (Or.inr (by simp [hbits])))
  | background n k =>
      change Changes _ s (s.writeLate n k)
      rw [writeLate_eq]
      exact Quiet.changes ⟨rfl, rfl, rfl, rfl⟩
  | stop normal => exact .single (.stop normal)

omit [DecidableEq H] in
/-- A peer that is registered, or an unknown one that is only noted. -/
theorem changes_peerReady (id : PeerId) (bits : List Bool) (alive : Bool) (env : FillEnv)
    (s : TorrentActor H) :
    Changes R (s.mapScheduler (·.updatePeerAvailability id bits)) (s.peerReady id bits alive env) := by
  unfold peerReady
  simp only
  split
  · exact (requesting_fillPeerRequestWindow id env _).changes
  · exact .refl

omit [DecidableEq H] in
/-- A torrent that is paused tells its peers if it was active. -/
theorem changes_stopTransfer (env : BroadcastEnv) (s : TorrentActor H) :
    (s.state.isTransferActive = true ∧
      s.stopTransfer env = (s.transitionState .paused).broadcastToPeers (.setChoked true) env) ∨
    (s.state.isTransferActive = false ∧ Quiet s (s.stopTransfer env)) := by
  unfold stopTransfer
  split
  · rename_i hpaused
    exact Or.inr ⟨by rw [hpaused]; rfl, rfl, rfl, rfl, rfl⟩
  · split
    · rename_i hactive
      exact Or.inl ⟨hactive, rfl⟩
    · rename_i hactive
      exact Or.inr ⟨by simpa using hactive, rfl, rfl, rfl, rfl⟩

omit [DecidableEq H] in
/-- Setting the state, other than to pause. -/
theorem changes_setState {state : TorrentState} (start : StartEnv) (stop : BroadcastEnv)
    (s : TorrentActor H) (h : state ≠ .paused) : Changes R s (s.setState state start stop) := by
  cases state with
  | downloading => exact changes_start start s
  | seeding => exact changes_start start s
  | paused => exact absurd rfl h
  | _ => exact Quiet.changes ⟨rfl, rfl, rfl, rfl⟩

end TorrentActor

end Tortillas
