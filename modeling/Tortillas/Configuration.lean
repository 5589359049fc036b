/-
**The configuration of a torrent, and what a restart leaves of it.**

`torrent/messages.rs` and `torrent/actor.rs`: autostart, the peer threshold, the storage strategy and
the output path of a torrent are set by the arguments it is started with, and then by messages.  The
engine supervises the actor: after an abnormal stop it is started again, with the same arguments.

The engine starts a restored torrent with temporary values, autostart off and a threshold that no
swarm reaches, so that nothing happens before the snapshot has been taken over.

Main definitions:

* `Configuration`, `TorrentActor.configuration` — the four settings, and those of an actor;
* `TorrentActor.configured`, `TorrentActor.lastConfigured` — what a message configures, and what was
  configured last in a run;
* `Creation` — how the engine creates a torrent, with the arguments and the first message;
* `RestartKeeps` — a restarted actor has the settings that were configured last, and the pieces.

Main results:

* `TorrentActor.configuration_step`, `TorrentActor.configuration_foldl` — **the settings are those that
  were configured last**, in every run;
* `restart_keeps_iff` — **when exactly a restart keeps them**;
* `restored_torrent_forgets` — a restored torrent that is restarted has the temporary values.
-/

import Tortillas.SnapshotValid

set_option relaxedAutoImplicit false
set_option autoImplicit false

namespace Tortillas

structure Configuration where
  autostart : Bool
  sufficientPeers : ℕ
  pieceStorage : PieceStorageStrategy
  outputPath : Option Path
  deriving DecidableEq

variable {H : Type}

/-- The output path; a custom manager has its own. -/
def PieceManagerProxy.outputPath : PieceManagerProxy H → Option Path
  | .default manager => manager.path
  | .custom => none

namespace TorrentActor

def configuration (s : TorrentActor H) : Configuration where
  autostart := s.autostart
  sufficientPeers := s.sufficientPeers
  pieceStorage := s.pieceStorage
  outputPath := s.pieceManager.outputPath

variable {s t : TorrentActor H}

/-! ### What leaves the settings alone -/

theorem Requesting.configuration (h : Requesting s t) : t.configuration = s.configuration := by
  rw [h.frame]
  rfl

theorem outputPath_preStart {info : Info H} {ok : Bool} {m m' : PieceManagerProxy H}
    (h : preStart info ok m = some m') : m'.outputPath = m.outputPath := by
  rcases sameManager_preStart h with rfl | ⟨dict, manager, -, rfl, -, rfl⟩
  · rfl
  · rfl

theorem configuration_start (env : StartEnv) (s : TorrentActor H) :
    (s.start env).configuration = s.configuration := by
  unfold start
  split
  · rfl
  · cases hinfo : s.infoDict with
    | none => rfl
    | some info =>
        simp only
        cases hpre : preStart info env.preStart s.pieceManager with
        | none => rfl
        | some manager =>
            have henter : (s.sendReadyHooks.enterTransfer manager).configuration =
                s.configuration := by
              simp only [TorrentActor.configuration, enterTransfer, sendReadyHooks,
                outputPath_preStart hpre]
            exact ((requesting_fillInitialWindows _ _).trans
              (requesting_rechokePeers _ _)).configuration.trans henter

theorem configuration_autostartCheck (env : StartEnv) (s : TorrentActor H) :
    (s.autostartCheck env).configuration = s.configuration := by
  unfold autostartCheck
  split
  · rfl
  · split
    · exact configuration_start env { s with pendingStart := true }
    · rfl

/-- **The check before a message leaves the settings alone.** -/
theorem configuration_next (env : StartEnv) (s : TorrentActor H) :
    (s.next env).configuration = s.configuration := by
  unfold TorrentActor.next
  split
  · rfl
  · exact configuration_autostartCheck env { s with outbox := [] }

theorem configuration_stopTransfer (env : BroadcastEnv) (s : TorrentActor H) :
    (s.stopTransfer env).configuration = s.configuration := by
  unfold stopTransfer
  split
  · rfl
  · split <;> rfl

theorem configuration_removePeer (s : TorrentActor H) (id : PeerId) :
    (s.removePeer id).1.configuration = s.configuration := by
  unfold removePeer
  split <;> rfl

theorem configuration_leaveFailed (s : TorrentActor H) :
    s.leaveFailed.configuration = s.configuration := by
  unfold leaveFailed
  split <;> rfl

theorem configuration_continueAfterPiece (p : PeerId) (env : BlockEnv) (s : TorrentActor H) :
    (s.continueAfterPiece p env).configuration = s.configuration := by
  unfold continueAfterPiece
  split
  · exact (requesting_rechokePeers _ _).configuration
  · exact (requesting_fillPeerRequestWindow p _ s).configuration

variable [DecidableEq H] {c : Codec H}

theorem configuration_pieceCompleted (p : PeerId) (index : ℕ) (env : BlockEnv)
    (s : TorrentActor H) :
    (s.pieceCompleted c p index env).configuration = s.configuration := by
  have hcommit : ((s.mapScheduler (·.removePieceBlocks index)).validateAndCommitPiece c index
      env).1.configuration = s.configuration := by
    rw [validateAndCommitPiece_eq]
    rfl
  unfold pieceCompleted
  simp only
  split
  · exact (requesting_fillPeerRequestWindow p _ _).configuration.trans hcommit
  · exact (configuration_continueAfterPiece p env _).trans hcommit

theorem configuration_acceptBlock (p : PeerId) (index offset length n : ℕ) (env : BlockEnv)
    (s : TorrentActor H) :
    (s.acceptBlock c p index offset length n env).configuration = s.configuration := by
  unfold acceptBlock
  simp only
  generalize (s.pieceScheduler.markBlockComplete index (offset / blockSize) n).2 = assigned
  have heq := recorded_eq p assigned index offset length n env.cancelSent s
  generalize TorrentActor.cancelAssigned p assigned index offset length env.cancelSent _ = recorded
    at heq ⊢
  have hrecorded : recorded.configuration = s.configuration := by
    rw [heq]
    rfl
  split
  · exact (configuration_pieceCompleted p index env _).trans hrecorded
  · exact (requesting_fillPeerRequestWindow p _ _).configuration.trans hrecorded

theorem configuration_handleIncomingPiece (p : PeerId) (index offset : ℕ) (block : Bytes)
    (env : BlockEnv) (s : TorrentActor H) :
    (s.handleIncomingPiece c p index offset block env).configuration = s.configuration := by
  by_cases hacc : ∃ info n, s.Accepts index offset block.length info n
  · obtain ⟨info, n, ha⟩ := hacc
    rw [handleIncomingPiece_of_accepts ha]
    have hwritten : (s.writeBlockToStorage c index offset block env.write).1.configuration =
        s.configuration := by
      rw [writeBlockToStorage_eq]
      rfl
    split
    · exact hwritten
    · exact (configuration_acceptBlock p index offset _ n env _).trans hwritten
  · rw [handleIncomingPiece_of_not_accepts c s p env hacc]

theorem configuration_infoBytes (bytes : Bytes) (env : BroadcastEnv) (s : TorrentActor H) :
    (s.infoBytes c bytes env).configuration = s.configuration := by
  rcases infoBytes_cases c bytes env s with heq | ⟨info, -, -, -, heq⟩
  · rw [heq]
  · rw [heq]
    rfl

/-! ### What is configured -/

/-- `set_piece_storage` accepts the strategy. -/
def acceptsPieceStorage (s : TorrentActor H) (strategy : PieceStorageStrategy) (created : Bool) :
    Bool :=
  s.isEmpty && match strategy with
    | .inFile => !s.pieceManager.isCustom
    | .disk _ => created

/-- `set_piece_manager` accepts the manager. -/
def acceptsPieceManager (s : TorrentActor H) (preStarted : Bool) : Bool :=
  s.isEmpty && match s.pieceStorage with
    | .inFile => false
    | .disk _ => s.infoDict.isNone || preStarted

/-- `set_output_path` accepts the path. -/
def acceptsOutputPath (s : TorrentActor H) (created : Bool) : Bool :=
  s.isEmpty && !s.pieceManager.isCustom && created

/-- What a message configures; a request that is refused configures nothing. -/
def configured (s : TorrentActor H) (cfg : Configuration) : TorrentMessage c → Configuration
  | .setAutoStart auto _ => { cfg with autostart := auto }
  | .setSufficientPeers peers _ => { cfg with sufficientPeers := peers }
  | .setPieceStorage strategy created =>
      if s.acceptsPieceStorage strategy created then { cfg with pieceStorage := strategy } else cfg
  | .setPieceManager preStarted =>
      if s.acceptsPieceManager preStarted then { cfg with outputPath := none } else cfg
  | .setOutputPath path created =>
      if s.acceptsOutputPath created then { cfg with outputPath := some path } else cfg
  | .restoreSnapshot v =>
      { cfg with
        autostart := v.snapshot.autoStart
        sufficientPeers := v.snapshot.sufficientPeers }
  | _ => cfg

/-- What was configured last in a run. -/
def lastConfigured : TorrentActor H → Configuration → List (Input c) → Configuration
  | _, cfg, [] => cfg
  | s, cfg, i :: inputs =>
      lastConfigured (s.step i) ((s.next i.check).configured cfg i.message) inputs

omit [DecidableEq H] in
theorem configuration_setPieceStorage (strategy : PieceStorageStrategy) (created : Bool)
    (s : TorrentActor H) :
    (s.setPieceStorage strategy created).configuration =
      if s.acceptsPieceStorage strategy created then
        { s.configuration with pieceStorage := strategy }
      else s.configuration := by
  unfold setPieceStorage acceptsPieceStorage
  cases hempty : s.isEmpty with
  | false => rfl
  | true =>
      cases strategy with
      | inFile =>
          cases hcustom : s.pieceManager.isCustom with
          | true => simp
          | false =>
              simp only [Bool.false_eq_true, if_false]
              exact configuration_leaveFailed { s with pieceStorage := .inFile }
      | disk dir =>
          cases created with
          | false => rfl
          | true => exact configuration_leaveFailed { s with pieceStorage := .disk dir }

omit [DecidableEq H] in
theorem configuration_setPieceManager (preStarted : Bool) (s : TorrentActor H) :
    (s.setPieceManager preStarted).configuration =
      if s.acceptsPieceManager preStarted then { s.configuration with outputPath := none }
      else s.configuration := by
  unfold setPieceManager acceptsPieceManager
  cases hempty : s.isEmpty with
  | false => rfl
  | true =>
      cases hstorage : s.pieceStorage with
      | inFile => rfl
      | disk dir =>
          cases hinfo : s.infoDict with
          | none => simp [TorrentActor.configuration, hstorage, PieceManagerProxy.outputPath]
          | some info =>
              cases preStarted with
              | false => simp
              | true => simp [TorrentActor.configuration, hstorage, PieceManagerProxy.outputPath]

omit [DecidableEq H] in
theorem configuration_setOutputPath (path : Path) (created : Bool) (s : TorrentActor H) :
    (s.setOutputPath path created).configuration =
      if s.acceptsOutputPath created then { s.configuration with outputPath := some path }
      else s.configuration := by
  unfold setOutputPath acceptsOutputPath
  cases hempty : s.isEmpty with
  | false => rfl
  | true =>
      cases hmanager : s.pieceManager with
      | custom => rfl
      | default manager =>
          cases created with
          | false => rfl
          | true =>
              exact configuration_leaveFailed
                { s with pieceManager := .default { manager with path := some path } }

/-- **What a message does to the settings.** -/
theorem configuration_handle (s : TorrentActor H) (m : TorrentMessage c) :
    (s.handle m).configuration = s.configured s.configuration m := by
  cases m with
  | peerConnected id ref =>
      change (s.insertPeer id ref).configuration = s.configuration
      rcases insertPeer_cases id ref s with heq | ⟨p, -, -, heq⟩
      · rw [heq]
      · rw [heq]
        rfl
  | incomingPiece p index offset block env => exact configuration_handleIncomingPiece ..
  | peerRejectedRequest p index offset env =>
      exact ((requesting_releasePeerRequest s p index offset).trans
        (requesting_fillPeerRequestWindow p env _)).configuration
  | infoBytes bytes env => exact configuration_infoBytes bytes env s
  | peerReady id available alive env =>
      simp only [handle, peerReady, configured]
      split
      · exact (requesting_fillPeerRequestWindow id env _).configuration
      · rfl
  | disconnectPeer id env =>
      simp only [handle, configured]
      split
      · exact (requesting_fillAllPeerRequestWindows env _).configuration.trans
          (configuration_removePeer s id)
      · exact configuration_removePeer s id
  | killPeer id env =>
      exact (requesting_fillAllPeerRequestWindows env _).configuration.trans
        (configuration_removePeer s id)
  | setPieceStorage strategy created => exact configuration_setPieceStorage strategy created s
  | setPieceManager preStarted => exact configuration_setPieceManager preStarted s
  | setOutputPath path created => exact configuration_setOutputPath path created s
  | setState state start stop =>
      cases state with
      | downloading => exact configuration_start start s
      | seeding => exact configuration_start start s
      | paused => exact configuration_stopTransfer stop s
      | _ => rfl
  | setAutoStart auto env =>
      simp only [handle, configured]
      split
      · rfl
      · exact configuration_autostartCheck env { s with autostart := auto }
  | setSufficientPeers peers env =>
      simp only [handle, configured]
      split
      · rfl
      · exact configuration_autostartCheck env { s with sufficientPeers := peers }
  | restoreSnapshot v => rfl
  | rechoke env => exact (requesting_rechokePeers env s).configuration
  | readyHook env =>
      simp only [handle, readyHookMessage, configured]
      split
      · rfl
      · split
        · rfl
        · exact configuration_autostartCheck env { s with readyHook := s.readyHook + 1 }
  | query => rfl
  | sharedHave id index =>
      simp only [handle, configured]
      split <;> rfl
  | background n k =>
      change (s.writeLate n k).configuration = s.configuration
      rw [writeLate_eq]
      rfl
  | stop normal => rfl

theorem configuration_step (s : TorrentActor H) (i : Input c) :
    (s.step i).configuration = (s.next i.check).configured s.configuration i.message := by
  rw [TorrentActor.step, configuration_handle, configuration_next]

/-- **The settings are those that were configured last**, in every run. -/
theorem configuration_foldl (inputs : List (Input c)) (s : TorrentActor H) :
    (inputs.foldl step s).configuration = s.lastConfigured s.configuration inputs := by
  induction inputs generalizing s with
  | nil => rfl
  | cons i inputs ih => rw [List.foldl_cons, ih, configuration_step, lastConfigured]

end TorrentActor

/-! ### Creation and restart -/

variable [DecidableEq H] {c : Codec H}

/-- How the engine creates a torrent: from a source, with the engine's storage, or from a snapshot. -/
inductive Creation (c : Codec H)
  | new (metainfo : MetaInfo H) (pieceStorage : PieceStorageStrategy) (basePath : Option Path)
  | restored (snapshot : ValidatedTorrentSnapshot c)

namespace Creation

/-- The arguments of the actor. -/
def args (settings : TorrentSettings) : Creation c → TorrentActor.Args H
  | .new metainfo pieceStorage basePath =>
      ⟨metainfo, pieceStorage, none, none, basePath, settings⟩
  | .restored v =>
      ⟨v.snapshot.metainfo, v.snapshot.pieceStorage, some false, some usizeMax,
        v.snapshot.outputPath, settings⟩

/-- The first message. -/
def inputs (check : StartEnv) : Creation c → List (TorrentActor.Input c)
  | .new .. => []
  | .restored v => [⟨check, .restoreSnapshot v⟩]

/-- The settings that the arguments give. -/
def configuration (settings : TorrentSettings) : Creation c → Configuration
  | .new _ pieceStorage basePath =>
      ⟨settings.autostart, settings.sufficientPeers, pieceStorage, basePath⟩
  | .restored v => ⟨false, usizeMax, v.snapshot.pieceStorage, v.snapshot.outputPath⟩

/-- `on_start`, at the creation and at each restart. -/
def start (settings : TorrentSettings) (creation : Creation c) (disk : FileStore Path) :
    Option (TorrentActor H) :=
  TorrentActor.onStart c (creation.args settings) disk

end Creation

/-- The restarted actor has the settings that were configured last, and counts every piece as
complete that was complete when the actor stopped. -/
structure RestartKeeps (stopped restarted : TorrentActor H) (cfg : Configuration) : Prop where
  configuration : restarted.configuration = cfg
  pieces : ∀ index : ℕ, stopped.bitfield[index]? = some true → restarted.bitfield[index]? = some true

/-- A started actor has the settings of its arguments, and no complete piece. -/
theorem Creation.start_eq {settings : TorrentSettings} {creation : Creation c}
    {disk : FileStore Path} {s : TorrentActor H} (h : creation.start settings disk = some s) :
    s.configuration = creation.configuration settings ∧
      ∀ index : ℕ, s.bitfield[index]? ≠ some true := by
  unfold Creation.start TorrentActor.onStart at h
  obtain ⟨hash, -, rfl⟩ := Option.map_eq_some_iff.1 h
  refine ⟨?_, ?_⟩
  · cases creation <;> rfl
  · intro index hbit
    have hmem := List.mem_of_getElem? hbit
    cases (List.eq_of_mem_replicate hmem)

/-- **When exactly a restart keeps a torrent's configuration and progress.**  Let a torrent be created,
run through any messages, stop, and be started again.  Its settings were those that were configured
last.  The restart keeps them and the pieces exactly when what was configured last is what the
arguments of the actor give, and no piece was complete; and a restored torrent ends up with the
temporary values. -/
theorem restart_keeps_iff {settings : TorrentSettings} {creation : Creation c} {check : StartEnv}
    {inputs : List (TorrentActor.Input c)} {disk : FileStore Path}
    {started stopped restarted : TorrentActor H} {cfg : Configuration}
    (hstarted : creation.start settings disk = some started)
    (hstopped : stopped = (creation.inputs check ++ inputs).foldl TorrentActor.step started)
    (hcfg : cfg = started.lastConfigured (creation.configuration settings)
      (creation.inputs check ++ inputs))
    (hrestarted : creation.start settings stopped.disk = some restarted) :
    stopped.configuration = cfg ∧
    (RestartKeeps stopped restarted cfg ↔
      cfg = creation.configuration settings ∧ ∀ index : ℕ, stopped.bitfield[index]? ≠ some true) ∧
    ∀ v, creation = .restored v →
      restarted.autostart = false ∧ restarted.sufficientPeers = usizeMax := by
  obtain ⟨hinitial, -⟩ := Creation.start_eq hstarted
  obtain ⟨hsettings, hbits⟩ := Creation.start_eq hrestarted
  refine ⟨?_, ⟨?_, ?_⟩, ?_⟩
  · rw [hstopped, hcfg, TorrentActor.configuration_foldl, hinitial]
  · rintro ⟨hkept, hpieces⟩
    exact ⟨hkept.symm.trans hsettings, fun index hbit => hbits index (hpieces index hbit)⟩
  · rintro ⟨hargs, hnone⟩
    exact ⟨hsettings.trans hargs.symm, fun index hbit => absurd hbit (hnone index)⟩
  · rintro v rfl
    exact ⟨congrArg Configuration.autostart hsettings,
      congrArg Configuration.sufficientPeers hsettings⟩

namespace Sample

/-- A torrent of two blocks from a file, with the defaults of the engine. -/
def created : Creation codec := .new (.torrent twoBlocks) .inFile (some [['o']])

/-- The torrent starts with one peer, has one block, and is set back to six peers. -/
def setBack : List (TorrentActor.Input codec) :=
  halfFetched.map input ++ [input (.setSufficientPeers 6 startEnv)]

/-- A torrent that is restored from the snapshot of a complete one. -/
def recreated : Creation codec := .restored completed

end Sample

/-- A new torrent whose settings were changed and set back is restarted with them. -/
theorem restart_keeps_sample :
    let stopped := Sample.setBack.foldl TorrentActor.step (Sample.fromInfo Sample.twoBlocks .inFile)
    ∃ restarted, Sample.created.start Sample.settings stopped.disk = some restarted ∧
      RestartKeeps stopped restarted (Sample.created.configuration Sample.settings) := by
  have hstarted : Sample.created.start Sample.settings (fun _ => none) =
      some (Sample.fromInfo Sample.twoBlocks .inFile) := rfl
  have hcfg : Sample.created.configuration Sample.settings =
      (Sample.fromInfo Sample.twoBlocks .inFile).lastConfigured (Sample.created.configuration Sample.settings)
        (Sample.created.inputs Sample.startEnv ++ Sample.setBack) := by
    decide +kernel
  have hbits : (Sample.setBack.foldl TorrentActor.step (Sample.fromInfo Sample.twoBlocks .inFile)).bitfield =
      [false] := by
    decide +kernel
  refine ⟨_, rfl, (restart_keeps_iff hstarted rfl hcfg rfl).2.1.2 ⟨rfl, ?_⟩⟩
  intro index hbit
  change (Sample.setBack.foldl TorrentActor.step (Sample.fromInfo Sample.twoBlocks .inFile)).bitfield[index]? = _
    at hbit
  rw [hbits] at hbit
  cases List.mem_singleton.1 (List.mem_of_getElem? hbit)

/-- A restored torrent, which starts by itself with six peers and is complete, is restarted: it does
not start by itself any more, waits for more peers than there can be, and has no piece. -/
theorem restored_torrent_forgets :
    ∃ started restarted : TorrentActor Bytes,
      let stopped := (Sample.recreated.inputs Sample.startEnv).foldl TorrentActor.step started
      Sample.recreated.start Sample.settings (fun _ => none) = some started ∧
      Sample.recreated.start Sample.settings stopped.disk = some restarted ∧
      stopped.configuration = ⟨true, 6, .inFile, some [['o']]⟩ ∧
      restarted.configuration = ⟨false, usizeMax, .inFile, some [['o']]⟩ ∧
      ¬ RestartKeeps stopped restarted stopped.configuration := by
  refine ⟨_, _, rfl, rfl, ?_, rfl, ?_⟩
  · rw [TorrentActor.configuration_foldl]
    rfl
  · rintro ⟨hkept, -⟩
    rw [TorrentActor.configuration_foldl] at hkept
    have hauto : false = true := congrArg Configuration.autostart hkept
    cases hauto

end Tortillas
