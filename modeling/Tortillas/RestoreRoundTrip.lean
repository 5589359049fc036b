/-
**Restoring undoes saving.**

`engine/messages.rs`, `torrent/actor.rs` and `torrent/messages.rs`: the engine restores a torrent in
several messages.  The actor is started with temporary settings, is told to take over the snapshot, is
told to resume if the torrent was active, and is asked for its view; before each message it checks
whether it should start by itself.  Saving it again should give the snapshot.

On the way the actor computes its progress for the trackers: when it registers the trackers of its
source, and when it starts.  The progress cannot be computed for pieces of length zero, which the checks
on a snapshot do not exclude.

Main definitions:

* `TorrentActor.startChecked`, `TorrentActor.nextChecked`, `TorrentActor.onStartChecked` — how the actor
  starts, with the progress that it computes;
* `RestoreSteps.taken`, `RestoreSteps.resumed`, `RestoreSteps.viewed` — the actor after each message;
* `TorrentActor.Starts` — a request to start, or the rule of autostart;
* `RestoreUndoes` — what restoring a snapshot should do;
* `TorrentSnapshot.Divides` — the snapshots on which a division by zero is reached.

Main results:

* `TorrentActor.inactive_foldl` — **only a request to start or autostart makes a torrent active**, while
  no blocks come;
* `restore_undoes_snapshot_iff` — **for which snapshots restoring undoes saving**.
-/

import Tortillas.Arithmetic
import Tortillas.Configuration
import Tortillas.EngineRestore
import Tortillas.Lifecycle
import Tortillas.TorrentChanges

set_option relaxedAutoImplicit false
set_option autoImplicit false

namespace Tortillas

variable {H : Type}

/-! ### Starting, with the progress -/

namespace TorrentActor

/-- `start`, with the progress that the trackers are told. -/
def startChecked (env : StartEnv) (s : TorrentActor H) : Outcome String (TorrentActor H) :=
  if s.state.canStart = false then .ok (s.start env)
  else
    match s.infoDict with
    | none => .ok (s.start env)
    | some info =>
        match preStart info env.preStart s.pieceManager with
        | none => .ok (s.start env)
        | some _ => do
            let _ ← s.trackerAnnounceProgress
            .ok (s.start env)

/-- The metadata and enough peers are there, and the torrent starts by itself. -/
def AutostartRule (s : TorrentActor H) : Prop := s.isReadyToStart = true ∧ s.autostart = true

instance (s : TorrentActor H) : Decidable s.AutostartRule :=
  inferInstanceAs (Decidable (s.isReadyToStart = true ∧ s.autostart = true))

/-- `autostart`. -/
def autostartChecked (env : StartEnv) (s : TorrentActor H) : Outcome String (TorrentActor H) :=
  if s.AutostartRule then do
    let t ← { s with pendingStart := true }.startChecked env
    .ok { t with pendingStart := false }
  else .ok (s.autostartCheck env)

/-- `next`. -/
def nextChecked (env : StartEnv) (s : TorrentActor H) : Outcome String (TorrentActor H) :=
  if s.pendingStart then .ok (s.next env) else { s with outbox := [] }.autostartChecked env

/-- `on_start`; `trackers` says whether the source lists a tracker that is registered. -/
def onStartChecked (c : Codec H) (args : Args H) (trackers : Bool) (disk : FileStore Path) :
    Outcome String (TorrentActor H) :=
  match onStart c args disk with
  | none => .err "failed to unwrap info hash"
  | some s =>
      if trackers then do
        let _ ← s.trackerAnnounceProgress
        .ok s
      else .ok s

end TorrentActor

/-! ### Restoring in messages -/

variable [DecidableEq H]

/-- What the actor meets while it is restored: whether it registers a tracker, and the checks before
the messages. -/
structure RestoreSteps where
  settings : TorrentSettings
  disk : FileStore Path
  trackers : Bool
  restoring : StartEnv
  resuming : StartEnv
  resume : StartEnv
  viewing : StartEnv

namespace RestoreSteps

variable (r : RestoreSteps) (c : Codec H) (snap : TorrentSnapshot H)

/-- The arguments of a restored torrent. -/
def args : TorrentActor.Args H :=
  ⟨snap.metainfo, snap.pieceStorage, some false, some usizeMax, snap.outputPath, r.settings⟩

/-- The actor after `RestoreSnapshot`. -/
def taken : Outcome String (TorrentActor H) := do
  let s ← TorrentActor.onStartChecked c (r.args snap) r.trackers r.disk
  let s ← s.nextChecked r.restoring
  .ok (s.restoreSnapshot snap)

/-- The actor after `SetState`, which is sent to a torrent that was active. -/
def resumed : Outcome String (TorrentActor H) := do
  let s ← r.taken c snap
  if snap.state.isTransferActive then do
    let s ← s.nextChecked r.resuming
    s.startChecked r.resume
  else .ok s

/-- The actor at `GetLiveView`. -/
def viewed : Outcome String (TorrentActor H) := do
  let s ← r.resumed c snap
  s.nextChecked r.viewing

/-- What the engine is answered: an error when the actor is gone. -/
def answer (actor : Outcome String (TorrentActor H)) : Except String Unit :=
  match actor with
  | .ok _ => .ok ()
  | .err e => .error e
  | .panic => .error "actor stopped"

/-- The engine's environment, with the actor's answers. -/
def createEnv (env : CreateEnv) : CreateEnv :=
  { env with
    restoreSnapshot := answer (r.taken c snap)
    setState := answer (r.resumed c snap)
    getLiveView := answer (r.viewed c snap) }

end RestoreSteps

namespace TorrentActor

/-- The next snapshot of a torrent. -/
def saved (check : StartEnv) (s : TorrentActor H) :
    Outcome String (Except SnapshotUnsupportedReason (TorrentSnapshot H)) := do
  let s ← s.nextChecked check
  .ok s.snapshot

variable {c : Codec H}

/-- The torrent is told to start, or starts by itself: before the message, or at the message. -/
def Starts (s : TorrentActor H) (i : Input c) : Prop :=
  s.AutostartRule ∨
  match i.message with
  | .setState state _ _ => state = .downloading ∨ state = .seeding
  | .setAutoStart auto _ => AutostartRule { s.next i.check with autostart := auto }
  | .setSufficientPeers peers _ => AutostartRule { s.next i.check with sufficientPeers := peers }
  | .readyHook _ => (s.next i.check).AutostartRule
  | _ => False

end TorrentActor

/-- A block of a peer. -/
def TorrentMessage.IsBlock {c : Codec H} : TorrentMessage c → Prop
  | .incomingPiece .. => True
  | _ => False

/-- Two snapshots of the same torrent with the same progress; the rows of blocks may come in another
order. -/
structure TorrentSnapshot.Same (snap saved : TorrentSnapshot H) : Prop where
  infoHash : saved.infoHash = snap.infoHash
  autoStart : saved.autoStart = snap.autoStart
  sufficientPeers : saved.sufficientPeers = snap.sufficientPeers
  outputPath : saved.outputPath = snap.outputPath
  pieceStorage : saved.pieceStorage = snap.pieceStorage
  metainfo : saved.metainfo = snap.metainfo
  resolvedMagnetInfo : saved.resolvedMagnetInfo = snap.resolvedMagnetInfo
  bitfield : saved.bitfield = snap.bitfield
  blockMap : ∀ entry, entry ∈ saved.blockMap ↔ entry ∈ snap.blockMap

/-- **What restoring a snapshot into an engine should do.** -/
structure RestoreUndoes (c : Codec H) (r : RestoreSteps) (env : CreateEnv) (engine : EngineState H)
    (snap : TorrentSnapshot H) : Prop where
  /-- The engine succeeds. -/
  succeeds : ∃ actor, (engine.createTorrent c (r.createEnv c snap env)
    (.restore snap false .trustSnapshot)).2 = .ok actor
  torrent : ∃ s, r.viewed c snap = .ok s ∧
    -- the next snapshot is the one that was restored
    (∀ check, ∃ next, s.saved check = .ok (.ok next) ∧ snap.Same next) ∧
    s.pieceScheduler.completedPieces = snap.bitfield ∧
    IsFirstIncomplete snap.bitfield s.pieceScheduler.nextPiece ∧
    -- an active torrent resumes
    (snap.state.isTransferActive = true →
      (s.state = .seeding ↔ snap.resolvedInfo.isSome = true ∧ ∀ bit ∈ snap.bitfield, bit = true) ∧
      (s.state = .downloading ↔
        snap.resolvedInfo.isSome = true ∧ ∃ bit ∈ snap.bitfield, bit = false))
  /-- Any other torrent stays inactive, from when it has taken over the snapshot. -/
  inactive : ∀ s, r.taken c snap = .ok s → snap.state.isTransferActive = false →
    ∀ inputs : List (TorrentActor.Input c),
      System.Along (fun t i => ¬ t.Starts i ∧ ¬ i.message.IsBlock) TorrentActor.step s inputs →
        (inputs.foldl TorrentActor.step s).state.isTransferActive = false

/-- The metadata of the snapshot is known, and its pieces have no length. -/
def TorrentSnapshot.Weightless (snap : TorrentSnapshot H) : Prop :=
  ∃ info, snap.resolvedInfo = some info ∧ info.pieceLength = 0

/-- The restored torrent divides by the length of its pieces, which is zero: it registers a tracker
with the metadata of its file, is resumed, or starts by itself without peers. -/
def TorrentSnapshot.Divides (trackers : Bool) (snap : TorrentSnapshot H) : Prop :=
  snap.Weightless ∧
    ((trackers = true ∧ snap.metainfo.isTorrent = true) ∨ snap.state.isTransferActive = true ∨
      (snap.autoStart = true ∧ snap.sufficientPeers = 0 ∧ snap.state.canBecomeReady = true))

/-! ### When the progress cannot be computed -/

namespace TorrentActor

variable {s t : TorrentActor H} {c : Codec H}

/-- The metadata is known, and its pieces have no length. -/
def Weightless (s : TorrentActor H) : Prop := ∃ info, s.infoDict = some info ∧ info.pieceLength = 0

omit [DecidableEq H] in
theorem SameData.weightless_iff (h : SameData s t) : t.Weightless ↔ s.Weightless := by
  rw [Weightless, Weightless, h.infoDict]

omit [DecidableEq H] in
theorem trackerAnnounceProgress_panic (hw : s.Weightless) : s.trackerAnnounceProgress = .panic := by
  obtain ⟨info, hinfo, hzero⟩ := hw
  rw [trackerAnnounceProgress, hinfo]
  dsimp only
  rw [totalBytesDownloaded_of_zero hinfo (by rw [hzero]; rfl), Outcome.panic_bind]

omit [DecidableEq H] in
theorem trackerAnnounceProgress_ok (hw : ¬ s.Weightless) : ∃ p, s.trackerAnnounceProgress = .ok p := by
  cases hinfo : s.infoDict with
  | none => exact ⟨none, by rw [trackerAnnounceProgress, hinfo]⟩
  | some info =>
      have hpos : 0 < info.pieceLength.toNat := by
        refine Nat.pos_of_ne_zero fun hzero => hw ⟨info, hinfo, ?_⟩
        exact UInt64.toNat_inj.1 hzero
      rw [trackerAnnounceProgress, hinfo]
      dsimp only
      rw [totalBytesDownloaded_eq hinfo hpos, Outcome.ok_bind]
      exact ⟨_, rfl⟩

omit [DecidableEq H] in
/-- Starting goes well when the progress can be computed, or need not be. -/
theorem startChecked_ok (h : s.Weightless → s.state.canStart = false) (env : StartEnv) :
    s.startChecked env = .ok (s.start env) := by
  unfold startChecked
  split
  · rfl
  · rename_i hcan
    obtain ⟨p, hp⟩ := trackerAnnounceProgress_ok (fun hw => hcan (h hw))
    split
    · rfl
    · split
      · rfl
      · rw [hp, Outcome.ok_bind]

omit [DecidableEq H] in
theorem preStart_ok (hpath : s.pieceManager.outputPath.isSome = true) (info : Info H) (ok : Bool) :
    ∃ manager, preStart info ok s.pieceManager = some manager := by
  cases hmanager : s.pieceManager with
  | custom => simp [hmanager, PieceManagerProxy.outputPath] at hpath
  | default manager =>
      rw [hmanager] at hpath
      exact ⟨.default { manager with info := some info }, if_pos hpath⟩

omit [DecidableEq H] in
/-- A torrent with pieces of no length that can start does not survive it. -/
theorem startChecked_panic (hw : s.Weightless) (hcan : s.state.canStart = true)
    (hpath : s.pieceManager.outputPath.isSome = true) (env : StartEnv) :
    s.startChecked env = .panic := by
  obtain ⟨info, hinfo, -⟩ := id hw
  obtain ⟨manager, hmanager⟩ := preStart_ok hpath info env.preStart
  unfold startChecked
  rw [if_neg (by simp [hcan]), hinfo]
  dsimp only
  rw [hmanager]
  dsimp only
  rw [trackerAnnounceProgress_panic hw, Outcome.panic_bind]

omit [DecidableEq H] in
theorem AutostartRule.canStart (h : s.AutostartRule) : s.state.canStart = true := by
  have hready : s.state.canBecomeReady = true := by
    have hboth := h.1
    rw [isReadyToStart, Bool.and_eq_true] at hboth
    exact hboth.2
  cases hstate : s.state <;> simp_all [TorrentState.canBecomeReady, TorrentState.canStart]

omit [DecidableEq H] in
theorem autostartCheck_of_rule (h : s.AutostartRule) (env : StartEnv) :
    s.autostartCheck env =
      { { s with pendingStart := true }.start env with pendingStart := false } := by
  rw [autostartCheck, if_neg (by simp [h.1]), if_pos h.2]

omit [DecidableEq H] in
/-- The check before a message goes well unless the rule applies to pieces of no length. -/
theorem nextChecked_ok (h : s.Weightless → ¬ s.AutostartRule) (env : StartEnv) :
    s.nextChecked env = .ok (s.next env) := by
  unfold nextChecked TorrentActor.next
  split
  · rfl
  · rw [autostartChecked]
    split
    · rename_i hrule
      have hstart := startChecked_ok (s := { s with outbox := [], pendingStart := true })
        (fun hw => absurd hrule (h hw)) env
      rw [hstart, Outcome.ok_bind, autostartCheck_of_rule hrule]
    · rfl

omit [DecidableEq H] in
theorem nextChecked_panic (hw : s.Weightless) (hrule : s.AutostartRule)
    (hpending : s.pendingStart = false) (hpath : s.pieceManager.outputPath.isSome = true)
    (env : StartEnv) : s.nextChecked env = .panic := by
  have hstart := startChecked_panic (s := { s with outbox := [], pendingStart := true }) hw
    (AutostartRule.canStart hrule) hpath env
  have hrule' : AutostartRule { s with outbox := [] } := hrule
  rw [nextChecked, if_neg (by simp [hpending]), autostartChecked, if_pos hrule', hstart,
    Outcome.panic_bind]

omit [DecidableEq H] in
theorem next_of_not_rule (hnot : ¬ s.AutostartRule) (env : StartEnv) :
    (s.next env).isReadyToStart = s.isReadyToStart ∧ (s.next env).autostart = s.autostart := by
  unfold TorrentActor.next
  split
  · exact ⟨rfl, rfl⟩
  · unfold autostartCheck
    split
    · exact ⟨rfl, rfl⟩
    · rename_i hready
      have hready : s.isReadyToStart = true := by
        cases h : s.isReadyToStart with
        | true => rfl
        | false => exact absurd h hready
      split
      · rename_i hauto
        exact absurd ⟨hready, hauto⟩ hnot
      · -- it becomes ready, and would become ready again
        refine ⟨?_, rfl⟩
        rw [hready]
        have hboth := hready
        rw [isReadyToStart, Bool.and_eq_true] at hboth
        change ((s.isReady && TorrentState.canBecomeReady .ready) = true)
        rw [hboth.1]
        rfl

omit [DecidableEq H] in
/-- A check that went well is followed by checks that go well. -/
theorem next_keeps (h : s.Weightless → ¬ s.AutostartRule) (env : StartEnv)
    (hw : (s.next env).Weightless) : ¬ (s.next env).AutostartRule := by
  have hnot := h ((sameData_next env s).weightless_iff.1 hw)
  obtain ⟨hready, hauto⟩ := next_of_not_rule hnot env
  rintro ⟨hready', hauto'⟩
  exact hnot ⟨hready ▸ hready', hauto ▸ hauto'⟩

/-! ### Becoming active -/

omit [DecidableEq H] in
theorem inactive_autostartCheck (hs : s.state.isTransferActive = false) (hnot : ¬ s.AutostartRule)
    (env : StartEnv) : (s.autostartCheck env).state.isTransferActive = false := by
  unfold autostartCheck
  split
  · exact hs
  · rename_i hready
    split
    · rename_i hauto
      exact absurd ⟨by simpa using hready, hauto⟩ hnot
    · rfl

omit [DecidableEq H] in
theorem inactive_next (hs : s.state.isTransferActive = false) (hnot : ¬ s.AutostartRule)
    (env : StartEnv) : (s.next env).state.isTransferActive = false := by
  unfold TorrentActor.next
  split
  · exact hs
  · exact inactive_autostartCheck (s := { s with outbox := [] }) hs hnot env

omit [DecidableEq H] in
theorem inactive_restoredState (state : TorrentState) :
    (restoredState state).isTransferActive = false := by
  cases state <;> rfl

/-- **A step that neither starts the torrent nor brings a block leaves it inactive.** -/
theorem inactive_step (hs : s.state.isTransferActive = false) {i : Input c} (hstarts : ¬ s.Starts i)
    (hblock : ¬ i.message.IsBlock) : (s.step i).state.isTransferActive = false := by
  obtain ⟨hrule, hmessage⟩ := not_or.1 hstarts
  have hnext : (s.next i.check).state.isTransferActive = false := inactive_next hs hrule i.check
  have hquiet := state_handle_of_quiet (c := c) (s.next i.check) (m := i.message)
  unfold TorrentActor.step
  generalize i.message = m at hmessage hblock hquiet
  cases m with
  | incomingPiece => exact absurd trivial hblock
  | infoBytes bytes env =>
      change ((s.next i.check).infoBytes c bytes env).state.isTransferActive = false
      rcases infoBytes_cases c bytes env (s.next i.check) with heq | ⟨info, -, -, -, heq⟩
      · rw [heq]
        exact hnext
      · rw [heq]
        change TorrentState.isTransferActive (if (s.next i.check).state = .resolvingMetadata then
          .added else (s.next i.check).state) = false
        split
        · rfl
        · exact hnext
  | restoreSnapshot v => exact inactive_restoredState v.snapshot.state
  | setState state start stop =>
      obtain ⟨hdown, hseed⟩ := not_or.1 hmessage
      cases state with
      | downloading => exact absurd rfl hdown
      | seeding => exact absurd rfl hseed
      | paused =>
          change ((s.next i.check).stopTransfer stop).state.isTransferActive = false
          rw [state_stopTransfer]
          rfl
      | _ => rfl
  | stop normal => cases normal <;> rfl
  | setAutoStart auto env =>
      simp only [handle]
      split
      · exact hnext
      · exact inactive_autostartCheck (s := { s.next i.check with autostart := auto }) hnext
          hmessage env
  | setSufficientPeers peers env =>
      simp only [handle]
      split
      · exact hnext
      · exact inactive_autostartCheck (s := { s.next i.check with sufficientPeers := peers }) hnext
          hmessage env
  | readyHook env =>
      simp only [handle, readyHookMessage]
      split
      · exact hnext
      · split
        · exact hnext
        · exact inactive_autostartCheck
            (s := { s.next i.check with readyHook := (s.next i.check).readyHook + 1 }) hnext
            hmessage env
  | _ =>
      -- what is left does not set the state, unless it leaves a failure
      rcases hquiet id id with hsame | ⟨-, hpaused⟩
      · rw [hsame]
        exact hnext
      · rw [hpaused]
        rfl

/-- **Only a request to start or autostart makes a torrent active**, while no blocks come. -/
theorem inactive_foldl (inputs : List (Input c)) (hs : s.state.isTransferActive = false)
    (h : System.Along (fun t i => ¬ t.Starts i ∧ ¬ i.message.IsBlock) step s inputs) :
    (inputs.foldl step s).state.isTransferActive = false := by
  refine h.invariant (I := fun s => s.state.isTransferActive = false) ?_ hs
  rintro s i hs ⟨hstarts, hblock⟩
  exact inactive_step hs hstarts hblock

end TorrentActor

/-! ### The data of a snapshot -/

namespace TorrentActor

variable {s t : TorrentActor H} {c : Codec H} {snap : TorrentSnapshot H}

omit [DecidableEq H] in
/-- The torrent has everything that the snapshot says, except for its lifecycle state. -/
structure Carries (snap : TorrentSnapshot H) (s : TorrentActor H) : Prop where
  infoHash : s.infoHash = snap.infoHash
  metainfo : s.metainfo = snap.metainfo
  resolvedMagnetInfo : s.resolvedMagnetInfo = snap.resolvedMagnetInfo
  bitfield : s.bitfield = snap.bitfield
  completedPieces : s.pieceScheduler.completedPieces = snap.bitfield
  nextPiece : IsFirstIncomplete snap.bitfield s.pieceScheduler.nextPiece
  rows : ∀ index row, s.pieceScheduler.completedBlocks.get? index = some row ↔
    ⟨index, row⟩ ∈ snap.blockMap
  configuration : s.configuration =
    ⟨snap.autoStart, snap.sufficientPeers, snap.pieceStorage, snap.outputPath⟩

namespace Carries

omit [DecidableEq H] in
theorem of_same (hs : s.Carries snap) (hd : SameData s t)
    (hc : t.configuration = s.configuration) : t.Carries snap where
  infoHash := hd.infoHash.trans hs.infoHash
  metainfo := hd.metainfo.trans hs.metainfo
  resolvedMagnetInfo := hd.resolvedMagnetInfo.trans hs.resolvedMagnetInfo
  bitfield := hd.bitfield.trans hs.bitfield
  completedPieces := hd.completedPieces.trans hs.completedPieces
  nextPiece := by
    rw [hd.nextPiece]
    exact hs.nextPiece
  rows := fun index row => by
    rw [hd.completedBlocks]
    exact hs.rows index row
  configuration := hc.trans hs.configuration

omit [DecidableEq H] in
theorem next (hs : s.Carries snap) (env : StartEnv) : (s.next env).Carries snap :=
  hs.of_same (sameData_next env s) (configuration_next env s)

omit [DecidableEq H] in
theorem start (hs : s.Carries snap) (env : StartEnv) : (s.start env).Carries snap :=
  hs.of_same (sameData_start env s) (configuration_start env s)

omit [DecidableEq H] in
theorem infoDict (hs : s.Carries snap) : s.infoDict = snap.resolvedInfo := by
  have hmetainfo := hs.metainfo
  have hmagnet := hs.resolvedMagnetInfo
  cases hsource : snap.metainfo with
  | torrent info =>
      rw [hsource] at hmetainfo
      simp [TorrentActor.infoDict, TorrentSnapshot.resolvedInfo, hmetainfo, hsource]
  | magnetUri xt =>
      rw [hsource] at hmetainfo
      simp [TorrentActor.infoDict, TorrentSnapshot.resolvedInfo, hmetainfo, hsource, hmagnet]

omit [DecidableEq H] in
theorem weightless_iff (hs : s.Carries snap) : s.Weightless ↔ snap.Weightless := by
  rw [Weightless, TorrentSnapshot.Weightless, hs.infoDict]

omit [DecidableEq H] in
theorem outputPath (hs : s.Carries snap) : s.pieceManager.outputPath = snap.outputPath :=
  congrArg Configuration.outputPath hs.configuration

omit [DecidableEq H] in
/-- A torrent that has everything of a snapshot is saved as that snapshot. -/
theorem snapshot (hs : s.Carries snap) (hpath : snap.outputPath.isSome = true) :
    ∃ next, s.snapshot = .ok next ∧ snap.Same next := by
  have houtput := hs.outputPath
  cases hmanager : s.pieceManager with
  | custom =>
      rw [hmanager] at houtput
      rw [← houtput] at hpath
      cases hpath
  | default manager =>
      rw [hmanager] at houtput
      refine ⟨_, by rw [TorrentActor.snapshot, hmanager], ?_⟩
      refine ⟨hs.infoHash, congrArg Configuration.autostart hs.configuration,
        congrArg Configuration.sufficientPeers hs.configuration, houtput,
        congrArg Configuration.pieceStorage hs.configuration, hs.metainfo, hs.resolvedMagnetInfo,
        hs.bitfield, ?_⟩
      intro entry
      exact mem_blockMap_iff.trans (hs.rows entry.pieceIndex entry.blocks)

omit [DecidableEq H] in
/-- Taking over a snapshot. -/
theorem restoreSnapshot (hv : snap.IsValid c) (hmeta : s.metainfo = snap.metainfo)
    (hhash : s.infoHash = snap.infoHash) (hstorage : s.pieceStorage = snap.pieceStorage)
    (hpath : s.pieceManager.outputPath = snap.outputPath) :
    (s.restoreSnapshot snap).Carries snap := by
  have hagrees := schedulerAgrees_restoreSnapshot hv hmeta.symm
  refine ⟨hhash, hmeta, rfl, rfl, hagrees.bits, hagrees.next, ?_, ?_⟩
  · intro index row
    constructor
    · intro hrow
      rcases mem_of_get?_foldl_restorePieceBlocks hrow with hmem | hget
      · exact hmem
      · rw [markComplete_completedBlocks _ _ _ rfl] at hget
        cases hget
    · intro hmem
      exact get?_foldl_restorePieceBlocks_of_mem hv.nodup hmem _
  · simp only [TorrentActor.configuration, TorrentActor.restoreSnapshot, hstorage, hpath]

omit [DecidableEq H] in
/-- Without peers the rule of autostart asks for a threshold of zero. -/
theorem autostartRule_iff (hs : s.Carries snap) (hpeers : s.peers = ∅) :
    s.AutostartRule ↔ snap.resolvedInfo.isSome = true ∧ snap.sufficientPeers = 0 ∧
      s.state.canBecomeReady = true ∧ snap.autoStart = true := by
  have hauto : s.autostart = snap.autoStart := congrArg Configuration.autostart hs.configuration
  have hpeers' : s.sufficientPeers = snap.sufficientPeers :=
    congrArg Configuration.sufficientPeers hs.configuration
  have hnone : s.peers.keys.length = 0 := by rw [hpeers]; rfl
  rw [AutostartRule, isReadyToStart, isReady, hs.infoDict, hauto, hpeers', hnone]
  simp only [Bool.and_eq_true, decide_eq_true_eq, Nat.le_zero]
  tauto

end Carries

omit [DecidableEq H] in
/-- Starting with metadata and an output path. -/
theorem state_start_of_info (hcan : s.state.canStart = true) (hinfo : s.infoDict.isSome = true)
    (hpath : s.pieceManager.outputPath.isSome = true) (env : StartEnv) :
    (s.start env).state = if s.isFull = true then .seeding else .downloading := by
  obtain ⟨info, hinfo⟩ := Option.isSome_iff_exists.1 hinfo
  obtain ⟨manager, hmanager⟩ := preStart_ok hpath info env.preStart
  rw [TorrentActor.start, if_neg (by simp [hcan]), hinfo]
  dsimp only
  rw [hmanager]
  dsimp only
  exact ((requesting_fillInitialWindows _ _).trans (requesting_rechokePeers _ _)).state

omit [DecidableEq H] in
theorem state_start_of_none (hcan : s.state.canStart = true) (hinfo : s.infoDict = none)
    (env : StartEnv) : (s.start env).state = .resolvingMetadata := by
  rw [TorrentActor.start, if_neg (by simp [hcan]), hinfo]
  rfl

omit [DecidableEq H] in
theorem state_next_of_not_ready (hs : s.isReadyToStart = false) (env : StartEnv) :
    (s.next env).state = s.state := by
  have hs' : ({ s with outbox := [] } : TorrentActor H).isReadyToStart = false := hs
  unfold TorrentActor.next
  split
  · rfl
  · rw [autostartCheck, if_pos hs']

omit [DecidableEq H] in
theorem pendingStart_next (hs : s.pendingStart = false) (env : StartEnv) :
    (s.next env).pendingStart = false := by
  unfold TorrentActor.next autostartCheck
  rw [if_neg (by simp [hs])]
  split
  · rfl
  · split <;> rfl

end TorrentActor

/-! ### Restoring -/

namespace RestoreSteps

variable {r : RestoreSteps} {c : Codec H} {snap : TorrentSnapshot H}

omit [DecidableEq H] in
/-- The actor that is started for a snapshot. -/
theorem exists_onStart (r : RestoreSteps) (hv : snap.IsValid c) :
    ∃ s, TorrentActor.onStart c (r.args snap) r.disk = some s ∧ s.metainfo = snap.metainfo ∧
      s.infoHash = snap.infoHash ∧ s.peers = ∅ ∧ s.pendingStart = false ∧
      s.configuration = ⟨false, usizeMax, snap.pieceStorage, snap.outputPath⟩ ∧
      (s.Weightless ↔ snap.metainfo.isTorrent = true ∧ snap.Weightless) := by
  refine ⟨_, by rw [TorrentActor.onStart, args, hv.infoHash]; rfl, rfl, rfl, rfl, rfl, rfl, ?_⟩
  rw [TorrentActor.Weightless, TorrentSnapshot.Weightless, TorrentActor.infoDict,
    TorrentSnapshot.resolvedInfo]
  cases snap.metainfo with
  | torrent info => simp [MetaInfo.isTorrent]
  | magnetUri xt => simp [MetaInfo.isTorrent]

omit [DecidableEq H] in
/-- Registering a tracker with the metadata of a file needs the progress. -/
theorem taken_panic (hv : snap.IsValid c) (hw : snap.Weightless) (htrackers : r.trackers = true)
    (htorrent : snap.metainfo.isTorrent = true) : r.taken c snap = .panic := by
  obtain ⟨s, hstart, -, -, -, -, -, hweight⟩ := exists_onStart r hv
  have hpanic := TorrentActor.trackerAnnounceProgress_panic (hweight.2 ⟨htorrent, hw⟩)
  rw [taken, TorrentActor.onStartChecked, hstart]
  dsimp only
  rw [if_pos htrackers, hpanic, Outcome.panic_bind, Outcome.panic_bind]

omit [DecidableEq H] in
/-- **Taking over a snapshot.** -/
theorem taken_ok (hv : snap.IsValid c)
    (h : ¬ (snap.Weightless ∧ r.trackers = true ∧ snap.metainfo.isTorrent = true)) :
    ∃ s, r.taken c snap = .ok s ∧ s.Carries snap ∧
      s.state = TorrentActor.restoredState snap.state ∧ s.peers = ∅ ∧ s.pendingStart = false := by
  obtain ⟨s, hstart, hmeta, hhash, hpeers, hpending, hcfg, hweight⟩ := exists_onStart r hv
  have hchecked : TorrentActor.onStartChecked c (r.args snap) r.trackers r.disk = .ok s := by
    rw [TorrentActor.onStartChecked, hstart]
    dsimp only
    split
    · rename_i htrackers
      obtain ⟨p, hp⟩ := TorrentActor.trackerAnnounceProgress_ok (s := s)
        fun hw => h ⟨(hweight.1 hw).2, htrackers, (hweight.1 hw).1⟩
      rw [hp, Outcome.ok_bind]
    · rfl
  -- the temporary settings keep the torrent from starting
  have hrule : ¬ s.AutostartRule := by
    rintro ⟨-, hauto⟩
    rw [show s.autostart = false from congrArg Configuration.autostart hcfg] at hauto
    cases hauto
  have hnext := TorrentActor.nextChecked_ok (s := s) (fun _ => hrule) r.restoring
  have hdata := TorrentActor.sameData_next r.restoring s
  have hcfg' := (TorrentActor.configuration_next r.restoring s).trans hcfg
  refine ⟨(s.next r.restoring).restoreSnapshot snap, ?_, ?_, rfl, ?_, ?_⟩
  · rw [taken, hchecked, Outcome.ok_bind, hnext, Outcome.ok_bind]
  · exact TorrentActor.Carries.restoreSnapshot hv (hdata.metainfo.trans hmeta)
      (hdata.infoHash.trans hhash) (congrArg Configuration.pieceStorage hcfg')
      (congrArg Configuration.outputPath hcfg')
  · exact (TorrentActor.peers_next r.restoring s).trans hpeers
  · exact TorrentActor.pendingStart_next hpending r.restoring

omit [DecidableEq H] in
theorem canBecomeReady_restoredState (state : TorrentState) :
    (TorrentActor.restoredState state).canBecomeReady = state.canBecomeReady := by
  cases state <;> rfl

omit [DecidableEq H] in
theorem restoredState_of_active {state : TorrentState} (h : state.isTransferActive = true) :
    TorrentActor.restoredState state = .paused := by
  cases state <;> first | rfl | cases h

omit [DecidableEq H] in
/-- What `SetState` finds: the torrent is paused. -/
theorem resumed_of_active {s : TorrentActor H} (hactive : snap.state.isTransferActive = true)
    (htaken : r.taken c snap = .ok s) (hs : s.state = .paused) :
    r.resumed c snap = (s.next r.resuming).startChecked r.resume := by
  have hrule : ¬ s.AutostartRule := by
    rintro ⟨hready, -⟩
    rw [TorrentActor.isReadyToStart, hs] at hready
    simp [TorrentState.canBecomeReady] at hready
  rw [resumed, htaken, Outcome.ok_bind, if_pos hactive,
    TorrentActor.nextChecked_ok (fun _ => hrule), Outcome.ok_bind]

omit [DecidableEq H] in
theorem resumed_of_inactive {s : TorrentActor H} (hactive : snap.state.isTransferActive = false)
    (htaken : r.taken c snap = .ok s) : r.resumed c snap = .ok s := by
  rw [resumed, htaken, Outcome.ok_bind, if_neg (by simp [hactive])]

omit [DecidableEq H] in
/-- **When the progress is needed and the pieces have no length, the torrent is not restored.** -/
theorem viewed_panic (hv : snap.IsValid c) (hdiv : snap.Divides r.trackers) :
    r.viewed c snap = .panic := by
  obtain ⟨hw, hneeds⟩ := hdiv
  -- the progress is needed by the trackers first, then by resuming, then by autostart
  by_cases hregister : r.trackers = true ∧ snap.metainfo.isTorrent = true
  · rw [viewed, resumed, taken_panic hv hw hregister.1 hregister.2, Outcome.panic_bind,
      Outcome.panic_bind]
  · obtain ⟨s, htaken, hcarries, hstate, hpeers, hpending⟩ :=
      taken_ok (r := r) hv fun h => hregister h.2
    have hpath : s.pieceManager.outputPath.isSome = true := by
      rw [hcarries.outputPath]
      exact hv.outputPath
    cases hactive : snap.state.isTransferActive with
    | true =>
        rw [restoredState_of_active hactive] at hstate
        have hnext := TorrentActor.state_next_of_paused r.resuming hstate
        have hpath' : (s.next r.resuming).pieceManager.outputPath.isSome = true := by
          rw [(hcarries.next r.resuming).outputPath]
          exact hv.outputPath
        have hpanic := TorrentActor.startChecked_panic
          ((hcarries.next r.resuming).weightless_iff.2 hw) (by rw [hnext]; rfl) hpath' r.resume
        rw [viewed, resumed_of_active hactive htaken hstate, hpanic, Outcome.panic_bind]
    | false =>
        obtain ⟨hauto, hzero, hready⟩ : snap.autoStart = true ∧ snap.sufficientPeers = 0 ∧
            snap.state.canBecomeReady = true := by
          rcases hneeds with h | h | h
          · exact absurd h hregister
          · rw [hactive] at h
            cases h
          · exact h
        obtain ⟨info, hinfo, -⟩ := id hw
        have hrule : s.AutostartRule := by
          rw [hcarries.autostartRule_iff hpeers, hinfo, hstate, canBecomeReady_restoredState]
          exact ⟨rfl, hzero, hready, hauto⟩
        rw [viewed, resumed_of_inactive hactive htaken, Outcome.ok_bind]
        exact TorrentActor.nextChecked_panic (hcarries.weightless_iff.2 hw) hrule hpending hpath _

omit [DecidableEq H] in
/-- **Resuming an active torrent.** -/
theorem resumed_ok_of_active {s : TorrentActor H} (hv : snap.IsValid c)
    (hactive : snap.state.isTransferActive = true) (hw : ¬ snap.Weightless)
    (htaken : r.taken c snap = .ok s) (hcarries : s.Carries snap) (hs : s.state = .paused) :
    ∃ u, r.resumed c snap = .ok u ∧ u.Carries snap ∧
      u.state = if snap.resolvedInfo.isSome = true then
        (if snap.bitfield.all id = true then .seeding else .downloading) else .resolvingMetadata := by
  have hnext := TorrentActor.state_next_of_paused r.resuming hs
  have hcarries' := hcarries.next r.resuming
  have hcan : (s.next r.resuming).state.canStart = true := by rw [hnext]; rfl
  have hstart := TorrentActor.startChecked_ok
    (fun hweight => absurd (hcarries'.weightless_iff.1 hweight) hw) r.resume
  refine ⟨(s.next r.resuming).start r.resume, ?_, hcarries'.start r.resume, ?_⟩
  · rw [resumed_of_active hactive htaken hs, hstart]
  · rw [← hcarries'.infoDict, ← hcarries'.bitfield]
    cases hinfo : (s.next r.resuming).infoDict with
    | none => exact TorrentActor.state_start_of_none hcan hinfo r.resume
    | some info =>
        refine TorrentActor.state_start_of_info hcan (by rw [hinfo]; rfl) ?_ r.resume
        rw [hcarries'.outputPath]
        exact hv.outputPath

omit [DecidableEq H] in
/-- **An active torrent at the end of its restoration.** -/
theorem viewed_ok_of_active {s : TorrentActor H} (hv : snap.IsValid c)
    (hactive : snap.state.isTransferActive = true) (hw : ¬ snap.Weightless)
    (htaken : r.taken c snap = .ok s) (hcarries : s.Carries snap) (hs : s.state = .paused) :
    ∃ u, r.viewed c snap = .ok u ∧ u.Carries snap ∧
      u.state = if snap.resolvedInfo.isSome = true then
        (if snap.bitfield.all id = true then .seeding else .downloading) else .resolvingMetadata := by
  obtain ⟨u, hresumed, hcarries', hstate⟩ := resumed_ok_of_active hv hactive hw htaken hcarries hs
  have hready : u.isReadyToStart = false := by
    rw [TorrentActor.isReadyToStart, TorrentActor.isReady, hcarries'.infoDict, hstate]
    cases hinfo : snap.resolvedInfo with
    | none => simp
    | some info => cases hfull : snap.bitfield.all id <;> simp [TorrentState.canBecomeReady]
  have hnext := TorrentActor.nextChecked_ok (s := u)
    (fun hweight => absurd (hcarries'.weightless_iff.1 hweight) hw) r.viewing
  refine ⟨u.next r.viewing, ?_, hcarries'.next r.viewing, ?_⟩
  · rw [viewed, hresumed, Outcome.ok_bind, hnext]
  · rw [TorrentActor.state_next_of_not_ready hready, hstate]

omit [DecidableEq H] in
/-- **A torrent at the end of its restoration**, unless the length of its pieces is zero and needed. -/
theorem viewed_ok (hv : snap.IsValid c) (hdiv : ¬ snap.Divides r.trackers) :
    ∃ u, r.viewed c snap = .ok u ∧ u.Carries snap ∧ (u.Weightless → ¬ u.AutostartRule) ∧
      (snap.state.isTransferActive = true →
        u.state = if snap.resolvedInfo.isSome = true then
          (if snap.bitfield.all id = true then .seeding else .downloading)
          else .resolvingMetadata) := by
  obtain ⟨s, htaken, hcarries, hstate, hpeers, -⟩ :=
    taken_ok (r := r) hv fun h => hdiv ⟨h.1, .inl h.2⟩
  cases hactive : snap.state.isTransferActive with
  | true =>
      have hw : ¬ snap.Weightless := fun hw => hdiv ⟨hw, .inr (.inl hactive)⟩
      rw [restoredState_of_active hactive] at hstate
      obtain ⟨u, hviewed, hcarries', hstate'⟩ :=
        viewed_ok_of_active hv hactive hw htaken hcarries hstate
      exact ⟨u, hviewed, hcarries', fun hweight => absurd (hcarries'.weightless_iff.1 hweight) hw,
        fun _ => hstate'⟩
  | false =>
      have hrule : s.Weightless → ¬ s.AutostartRule := by
        intro hweight hrule
        obtain ⟨-, hzero, hready, hauto⟩ := (hcarries.autostartRule_iff hpeers).1 hrule
        rw [hstate, canBecomeReady_restoredState] at hready
        exact hdiv ⟨hcarries.weightless_iff.1 hweight, .inr (.inr ⟨hauto, hzero, hready⟩)⟩
      refine ⟨s.next r.viewing, ?_, hcarries.next r.viewing, ?_, fun h => absurd h (by simp)⟩
      · rw [viewed, resumed_of_inactive hactive htaken, Outcome.ok_bind,
          TorrentActor.nextChecked_ok hrule]
      · exact TorrentActor.next_keeps hrule r.viewing

omit [DecidableEq H] in
theorem answer_of_ok {actor : Outcome String (TorrentActor H)} {s : TorrentActor H}
    (h : actor = .ok s) : answer actor = .ok () := by
  rw [h]
  rfl

/-- The engine succeeds when the actor answers all its messages. -/
theorem createTorrent_ok (hvalid : snap.validate c = .ok ()) {u : TorrentActor H}
    (hviewed : r.viewed c snap = .ok u) (env : CreateEnv) {engine : EngineState H}
    (hnone : engine.torrents.get? snap.infoHash = none) :
    (engine.createTorrent c (r.createEnv c snap env) (.restore snap false .trustSnapshot)).2 =
      .ok engine.spawned := by
  obtain ⟨s', hresumed, -⟩ := Outcome.bind_eq_ok.1 hviewed
  obtain ⟨s, htaken, -⟩ := Outcome.bind_eq_ok.1 hresumed
  have hv := (TorrentSnapshot.validate_ok_iff c snap).1 hvalid
  have hreconcile : snap.reconcileStorage c env.fs env.folder .trustSnapshot = .ok snap := if_pos rfl
  have hparts : EngineState.requestParts c (r.createEnv c snap env)
      (.restore snap false .trustSnapshot) =
      .ok (snap.metainfo, true, snap.state.isTransferActive) := by
    simp only [EngineState.requestParts, createEnv, hvalid, hreconcile]
    rfl
  rw [EngineState.createTorrent, hparts]
  dsimp only
  rw [hv.infoHash]
  dsimp only
  rw [if_neg (by simp [HashMap.contains, hnone])]
  simp only [EngineState.createSpawned, createEnv, answer_of_ok htaken, answer_of_ok hresumed,
    answer_of_ok hviewed, ite_self]

end RestoreSteps

/-- **For which snapshots restoring undoes saving.**  A snapshot that passes the checks is restored
with `TrustSnapshot` into an empty engine: the engine succeeds, the next snapshot is the same, and the
torrent resumes as it was, exactly when no division by a length of zero is reached. -/
theorem restore_undoes_snapshot_iff (c : Codec H) (r : RestoreSteps) (env : CreateEnv)
    {engine : EngineState H} (hempty : engine.torrents.toList = []) {snap : TorrentSnapshot H}
    (hvalid : snap.validate c = .ok ()) :
    RestoreUndoes c r env engine snap ↔ ¬ snap.Divides r.trackers := by
  have hv := (TorrentSnapshot.validate_ok_iff c snap).1 hvalid
  constructor
  · rintro ⟨-, ⟨s, hviewed, -⟩, -⟩ hdiv
    rw [RestoreSteps.viewed_panic hv hdiv] at hviewed
    cases hviewed
  · intro hdiv
    obtain ⟨u, hviewed, hcarries, hrule, hresumes⟩ := RestoreSteps.viewed_ok hv hdiv
    have hnone := HashMap.get?_eq_none_of_toList hempty snap.infoHash
    refine ⟨⟨_, RestoreSteps.createTorrent_ok hvalid hviewed env hnone⟩, ⟨u, hviewed, ?_,
      hcarries.completedPieces, hcarries.nextPiece, ?_⟩, ?_⟩
    · intro check
      obtain ⟨next, hnext, hsame⟩ := (hcarries.next check).snapshot hv.outputPath
      refine ⟨next, ?_, hsame⟩
      rw [TorrentActor.saved, TorrentActor.nextChecked_ok hrule, Outcome.ok_bind, hnext]
    · intro hactive
      rw [hresumes hactive]
      cases hinfo : snap.resolvedInfo with
      | none => simp
      | some info =>
          cases hfull : snap.bitfield.all id with
          | true =>
              simp only [List.all_eq_true, id] at hfull
              simpa using hfull
          | false =>
              simp only [List.all_eq_false, id, Bool.not_eq_true] at hfull
              simpa using hfull
    · intro s htaken hactive inputs halong
      refine TorrentActor.inactive_foldl inputs ?_ halong
      obtain ⟨s', htaken', -, hstate, -⟩ :=
        RestoreSteps.taken_ok (r := r) hv fun h => hdiv ⟨h.1, .inl h.2⟩
      cases htaken.symm.trans htaken'
      rw [hstate]
      exact TorrentActor.inactive_restoredState snap.state

namespace Sample

/-- Nothing out of the ordinary; the source lists a tracker. -/
def restoreSteps : RestoreSteps :=
  ⟨settings, fun _ => none, true, startEnv, startEnv, startEnv, startEnv⟩

def createEnv : CreateEnv :=
  ⟨fun _ => none, none, true, .ok (), true, .ok (), .ok (), .runs, .runs⟩

/-- An engine without torrents. -/
def emptyEngine : EngineState Bytes := ⟨∅, 0, ∅, none⟩

/-- A torrent with pieces of no length, saved while it was downloading. -/
def weightlessSnapshot : TorrentSnapshot Bytes where
  version := torrentSnapshotVersion
  infoHash := encode weightless
  state := .downloading
  autoStart := true
  sufficientPeers := 6
  outputPath := some [['o']]
  metainfo := .torrent weightless
  pieceStorage := .inFile
  resolvedMagnetInfo := none
  bitfield := [false]
  blockMap := []

end Sample

/-- A complete torrent is restored, and seeds. -/
theorem restore_undoes_snapshot_sample :
    RestoreUndoes Sample.codec Sample.restoreSteps Sample.createEnv Sample.emptyEngine
      Sample.completed.snapshot := by
  have hvalid : Sample.completed.snapshot.validate Sample.codec = .ok () :=
    (TorrentSnapshot.validate_ok_iff _ _).2 Sample.completed.valid
  refine (restore_undoes_snapshot_iff Sample.codec Sample.restoreSteps Sample.createEnv rfl
    hvalid).2 ?_
  rintro ⟨⟨info, hinfo, hzero⟩, -⟩
  cases hinfo
  cases hzero

/-- A snapshot that passes the checks is not restored: its pieces have no length. -/
theorem weightless_snapshot_not_restored :
    Sample.weightlessSnapshot.validate Sample.codec = .ok () ∧
    Sample.emptyEngine.torrents.toList = [] ∧
    ¬ RestoreUndoes Sample.codec Sample.restoreSteps Sample.createEnv Sample.emptyEngine
      Sample.weightlessSnapshot := by
  have hvalid : Sample.weightlessSnapshot.validate Sample.codec = .ok () := by decide +kernel
  have hdiv : Sample.weightlessSnapshot.Divides Sample.restoreSteps.trackers :=
    ⟨⟨Sample.weightless, rfl, rfl⟩, .inr (.inl rfl)⟩
  refine ⟨hvalid, rfl, ?_⟩
  rintro ⟨-, ⟨s, hviewed, -⟩, -⟩
  rw [RestoreSteps.viewed_panic ((TorrentSnapshot.validate_ok_iff _ _).1 hvalid) hdiv] at hviewed
  cases hviewed

end Tortillas
