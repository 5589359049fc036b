/-
**How a handler deals with requests.**

Seen from the requests, a handler of the torrent does two things.  It loses some: a request is answered, refused or
found stale, or its peer is dropped.  And it fills the window of a peer, by asking for as many blocks as are missing
to a target.  This module takes the handlers apart into these dealings, and says in which states and at which times
requests are looked through for stale ones.

Main definitions:

* `TorrentActor.window` — the largest target;
* `TorrentActor.Loses` — nothing is asked for, and requests are lost only where `S` allows it;
* `TorrentActor.Dealing`, `TorrentActor.Dealings` — one dealing, and a sequence of them;
* `TorrentActor.rechokes` — where and when a round releases stale requests.

Main results:

* `TorrentActor.dealings_next` — the check before a message is a sequence of dealings;
* `TorrentActor.dealings_handle` — **and so is the handling of every message** but a connection and a snapshot.
-/

import Tortillas.SwarmRounds

set_option relaxedAutoImplicit false
set_option autoImplicit false

namespace Tortillas

/-- An effect that asks for nothing and starts no actor. -/
def Effect.AsksNothing : Effect → Prop
  | .tell _ (.needPiece ..) => False
  | .spawn .. => False
  | _ => True

namespace TorrentActor

variable {H : Type}

/-- The largest number of requests that a peer is meant to have. -/
def window (s : TorrentActor H) : ℕ :=
  max s.settings.initialPeerRequestWindow s.settings.maxInFlightPerPeer

/-- Nothing is asked for and nobody is registered.  What was in flight for a peer that stays registered still is, or
`S` allows its loss. -/
structure Loses (S : TorrentActor H → ℕ → ℕ → Prop) (s t : TorrentActor H) : Prop where
  settings : t.settings = s.settings
  peers : ∀ p ref, t.peers.get? p = some ref → s.peers.get? p = some ref
  counted : s.pieceScheduler.Counted → t.pieceScheduler.Counted
  owned : ∀ p, t.pieceScheduler.owned p ≤ s.pieceScheduler.owned p
  lost : ∀ i j x, s.pieceScheduler.inFlightAt i j = some x → t.peers.get? x.peerId ≠ none →
    t.pieceScheduler.inFlightAt i j = some x ∨ S s i j
  sent : ∃ new, t.outbox = s.outbox ++ new ∧ ∀ e ∈ new, e.AsksNothing

/-- One dealing with requests. -/
inductive Dealing (S : TorrentActor H → ℕ → ℕ → Prop) : TorrentActor H → TorrentActor H → Prop
  | loses {s t : TorrentActor H} (h : Loses S s t) : Dealing S s t
  | fill {s : TorrentActor H} (p : PeerId) {target : ℕ} (env : FillEnv) (h : target ≤ s.window) :
      Dealing S s (s.fillPeerRequestWindowTo p target env)

/-- A sequence of dealings. -/
abbrev Dealings (S : TorrentActor H → ℕ → ℕ → Prop) : TorrentActor H → TorrentActor H → Prop :=
  Relation.ReflTransGen (Dealing S)

variable {S : TorrentActor H → ℕ → ℕ → Prop} {s t : TorrentActor H}

/-! ### Losing requests -/

namespace Loses

/-- Requests and counts are untouched; peers may be dropped. -/
theorem idle (hsettings : t.settings = s.settings)
    (hpeers : ∀ p ref, t.peers.get? p = some ref → s.peers.get? p = some ref)
    (hflight : t.pieceScheduler.inFlight = s.pieceScheduler.inFlight)
    (hcounts : t.pieceScheduler.inFlightPerPeer = s.pieceScheduler.inFlightPerPeer)
    (hsent : ∃ new, t.outbox = s.outbox ++ new ∧ ∀ e ∈ new, e.AsksNothing) : Loses S s t := by
  refine ⟨hsettings, hpeers, ?_, ?_, ?_, hsent⟩
  · intro hs p
    rw [hcounts, hs p, PieceScheduler.owned, PieceScheduler.owned, hflight]
  · intro p
    rw [PieceScheduler.owned, hflight, PieceScheduler.owned]
  · intro i j x hx _
    refine .inl ?_
    rw [PieceScheduler.inFlightAt, hflight]
    exact hx

/-- Nothing is sent. -/
theorem silent (hsettings : t.settings = s.settings) (hpeers : t.peers = s.peers)
    (hflight : t.pieceScheduler.inFlight = s.pieceScheduler.inFlight)
    (hcounts : t.pieceScheduler.inFlightPerPeer = s.pieceScheduler.inFlightPerPeer)
    (hout : t.outbox = s.outbox) : Loses S s t :=
  idle hsettings (by rw [hpeers]; exact fun _ _ h => h) hflight hcounts
    ⟨[], by rw [hout, List.append_nil], nofun⟩

/-- Only the outbox changes. -/
theorem emits {e : Effect} (he : e.AsksNothing) (s : TorrentActor H) : Loses S s (s.emit e) := by
  refine idle rfl (fun _ _ h => h) rfl rfl ⟨[e], rfl, fun e' he' => ?_⟩
  rw [List.mem_singleton.1 he']
  exact he

/-- The request of a block is taken back, from a scheduler with the same requests. -/
theorem takeBack {v : PieceScheduler} {i j : ℕ} (ht : t.pieceScheduler = v.takeBack i j)
    (hflight : v.inFlight = s.pieceScheduler.inFlight)
    (hcounts : v.inFlightPerPeer = s.pieceScheduler.inFlightPerPeer)
    (hsettings : t.settings = s.settings) (hpeers : t.peers = s.peers)
    (hsent : ∃ new, t.outbox = s.outbox ++ new ∧ ∀ e ∈ new, e.AsksNothing) (hS : S s i j) : Loses S s t := by
  have howned : ∀ p, v.owned p = s.pieceScheduler.owned p := by
    intro p
    rw [PieceScheduler.owned, hflight, PieceScheduler.owned]
  refine ⟨hsettings, ?_, ?_, ?_, ?_, hsent⟩
  · rw [hpeers]
    exact fun _ _ h => h
  · intro hs
    have hv : v.Counted := by
      intro p
      rw [hcounts, hs p, howned]
    rw [ht]
    exact hv.takeBack i j
  · intro p
    rw [ht, ← howned]
    exact v.owned_takeBack_le i j p
  · intro i' j' x hx _
    by_cases hsame : i' = i ∧ j' = j
    · obtain ⟨rfl, rfl⟩ := hsame
      exact .inr hS
    · refine .inl ?_
      rw [ht, v.inFlightAt_takeBack, if_neg hsame, PieceScheduler.inFlightAt, hflight]
      exact hx

theorem releasePeerRequest (p : PeerId) (index offset : ℕ)
    (hS : ∀ x, s.pieceScheduler.inFlightAt index (offset / blockSize) = some x → x.peerId = p →
      S s index (offset / blockSize)) :
    Loses S s (s.mapScheduler (·.releasePeerRequest p index offset)) := by
  have heq := s.pieceScheduler.releasePeerRequest_eq p index offset
  split at heq
  · rename_i hany
    obtain ⟨x, hx, hp⟩ := (Option.any_eq_true _ _).1 hany
    exact takeBack heq rfl rfl rfl rfl ⟨[], (List.append_nil _).symm, nofun⟩ (hS x hx (by simpa using hp))
  · exact silent rfl rfl (congrArg PieceScheduler.inFlight heq) (congrArg PieceScheduler.inFlightPerPeer heq) rfl

/-- Stale requests are released. -/
theorem releaseStaleRequests (now : ℕ)
    (hS : ∀ i j x, s.pieceScheduler.inFlightAt i j = some x →
      s.settings.peerRequestTimeout ≤ now - x.requestedAt → S s i j) :
    Loses S s (s.mapScheduler fun p => (p.releaseStaleRequests now s.settings.peerRequestTimeout).1) := by
  refine ⟨rfl, fun _ _ h => h, ?_, ?_, ?_, [], (List.append_nil _).symm, nofun⟩
  · exact fun _ => PieceScheduler.counted_releaseStaleRequests _ _ _
  · exact fun p => SlotTable.count_keepOnly_le _ _ _
  · intro i j x hx _
    by_cases hstale : s.settings.peerRequestTimeout ≤ now - x.requestedAt
    · exact .inr (hS i j x hx hstale)
    · refine .inl ?_
      change (s.pieceScheduler.releaseStaleRequests now s.settings.peerRequestTimeout).1.inFlightAt i j = some x
      rw [PieceScheduler.inFlightAt_releaseStaleRequests, hx, Option.filter_some]
      simp [hstale]

/-- A peer is dropped with its requests. -/
theorem removePeer (id : PeerId) (s : TorrentActor H) : Loses S s (s.removePeer id).1 := by
  have hkept : ∀ i j x, s.pieceScheduler.inFlightAt i j = some x → x.peerId ≠ id →
      (s.pieceScheduler.peerDisconnected id).inFlightAt i j = some x := by
    intro i j x hx hne
    rw [PieceScheduler.inFlightAt_peerDisconnected, hx, Option.filter_some]
    simp [hne]
  have howned : ∀ p, (s.pieceScheduler.peerDisconnected id).owned p ≤ s.pieceScheduler.owned p := by
    intro p
    rw [PieceScheduler.owned_peerDisconnected]
    split
    · exact Nat.zero_le _
    · exact le_rfl
  unfold TorrentActor.removePeer
  split
  · rename_i ref _
    refine ⟨rfl, ?_, fun h => h.peerDisconnected id, howned, ?_, [.kill ref], rfl, ?_⟩
    · intro p ref hget
      exact (HashMap.get?_of_get?_erase hget).2
    · intro i j x hx hget
      refine .inl (hkept i j x hx ?_)
      rintro rfl
      exact hget (HashMap.get?_erase_self _ _)
    · intro e he
      rw [List.mem_singleton.1 he]
      trivial
  · rename_i hnone
    refine ⟨rfl, fun _ _ h => h, fun h => h.peerDisconnected id, howned, ?_, [], (List.append_nil _).symm, nofun⟩
    intro i j x hx hget
    refine .inl (hkept i j x hx ?_)
    rintro rfl
    exact hget hnone

/-- All peers are told something, and the dead are dropped. -/
theorem broadcastToPeers {command : PeerCommand} (hcommand : ∀ ref, (Effect.tell ref command).AsksNothing)
    (env : BroadcastEnv) (s : TorrentActor H) : Loses S s (s.broadcastToPeers command env) := by
  refine idle rfl ?_ rfl rfl ⟨_, rfl, ?_⟩
  · intro p ref hget
    exact Shrinks.get?_of_get?_dropped hget
  · intro e he
    obtain ⟨q, ref, -, rfl⟩ := mem_told he
    exact hcommand ref

/-- The same, and the dead are dropped with their requests. -/
theorem broadcastToPeersBestEffort {command : PeerCommand} (hcommand : ∀ ref, (Effect.tell ref command).AsksNothing)
    (env : BroadcastEnv) (s : TorrentActor H) : Loses S s (s.broadcastToPeersBestEffort command env) := by
  have hdead : ∀ (dead : List PeerId) (sched : PieceScheduler),
      (sched.Counted → (dead.foldl PieceScheduler.peerDisconnected sched).Counted) ∧
      (∀ p, (dead.foldl PieceScheduler.peerDisconnected sched).owned p ≤ sched.owned p) ∧
      ∀ i j x, sched.inFlightAt i j = some x → x.peerId ∉ dead →
        (dead.foldl PieceScheduler.peerDisconnected sched).inFlightAt i j = some x := by
    intro dead
    induction dead with
    | nil => exact fun sched => ⟨id, fun _ => le_rfl, fun _ _ _ hx _ => hx⟩
    | cons id dead ih =>
        intro sched
        obtain ⟨hcounted, howned, hkept⟩ := ih (sched.peerDisconnected id)
        refine ⟨fun h => hcounted (h.peerDisconnected id), fun p => (howned p).trans ?_, ?_⟩
        · rw [PieceScheduler.owned_peerDisconnected]
          split
          · exact Nat.zero_le _
          · exact le_rfl
        · intro i j x hx hnot
          rw [List.mem_cons, not_or] at hnot
          refine hkept i j x ?_ hnot.2
          rw [PieceScheduler.inFlightAt_peerDisconnected, hx, Option.filter_some]
          simp [hnot.1]
  obtain ⟨hcounted, howned, hkept⟩ := hdead ((s.peers.toList.map Prod.fst).filter env.dead) s.pieceScheduler
  refine ⟨rfl, ?_, hcounted, howned, ?_, _, rfl, ?_⟩
  · intro p ref hget
    exact Shrinks.get?_of_get?_dropped hget
  · intro i j x hx hget
    refine .inl (hkept i j x hx fun hmem => hget ?_)
    exact (HashMap.get?_foldl_erase _ _ _).trans (if_pos hmem)
  · intro e he
    obtain ⟨q, ref, -, rfl⟩ := mem_told (f := fun id => !env.dead id && env.sent id) he
    exact hcommand ref

end Loses

/-! ### Filling windows -/

theorem dealings_fillPeerRequestWindow (p : PeerId) (env : FillEnv) (s : TorrentActor H) :
    Dealings S s (s.fillPeerRequestWindow p env) :=
  .single (.fill p env (Nat.le_max_right _ _))

theorem dealings_foldl {α : Type} {f : TorrentActor H → α → TorrentActor H} (hf : ∀ s a, Dealings S s (f s a))
    (as : List α) (s : TorrentActor H) : Dealings S s (as.foldl f s) := by
  induction as generalizing s with
  | nil => exact .refl
  | cons a as ih => exact (hf s a).trans (ih (f s a))

theorem dealings_fillAllPeerRequestWindows (env : FillAllEnv) (s : TorrentActor H) :
    Dealings S s (s.fillAllPeerRequestWindows env) := by
  unfold fillAllPeerRequestWindows
  split
  · exact .refl
  · exact dealings_foldl (fun s id => dealings_fillPeerRequestWindow id _ s) _ s

theorem dealings_fillInitialWindows (env : FillAllEnv) (s : TorrentActor H) :
    Dealings S s (s.fillInitialWindows env) := by
  unfold fillInitialWindows
  split
  · exact dealings_foldl (fun s id => .single (.fill id _ (Nat.le_max_left _ _))) _ s
  · exact .refl

/-! ### Stale requests -/

/-- Where and when the rechoking of peers looks for stale requests. -/
def rechokesAt (env : RechokeEnv) (s : TorrentActor H) : List (TorrentActor H × ℕ) :=
  if s.state.isTransferActive then [(s, env.now)] else []

/-- The same for a start. -/
def startRechokes (env : StartEnv) (s : TorrentActor H) : List (TorrentActor H × ℕ) :=
  if s.state.canStart = false then []
  else
    match s.infoDict with
    | none => []
    | some info =>
        match preStart info env.preStart s.pieceManager with
        | none => []
        | some manager =>
            ((s.sendReadyHooks.enterTransfer manager).fillInitialWindows env.fillAll).rechokesAt env.rechoke

/-- The same for the check whether to start. -/
def autostartRechokes (env : StartEnv) (s : TorrentActor H) : List (TorrentActor H × ℕ) :=
  if s.isReadyToStart && s.autostart then { s with pendingStart := true }.startRechokes env else []

/-- The same for the check before a message. -/
def nextRechokes (env : StartEnv) (s : TorrentActor H) : List (TorrentActor H × ℕ) :=
  if s.pendingStart then [] else { s with outbox := [] }.autostartRechokes env

/-- `S` allows the release of what is stale there and then. -/
def MayExpire (S : TorrentActor H → ℕ → ℕ → Prop) (point : TorrentActor H × ℕ) : Prop :=
  ∀ i j x, point.1.pieceScheduler.inFlightAt i j = some x →
    point.1.settings.peerRequestTimeout ≤ point.2 - x.requestedAt → S point.1 i j

theorem dealings_rechokePeers {env : RechokeEnv} (h : ∀ point ∈ s.rechokesAt env, MayExpire S point) :
    Dealings S s (s.rechokePeers env) := by
  unfold rechokePeers
  unfold rechokesAt at h
  split
  · exact .refl
  · rename_i hactive
    rw [if_pos (by simpa using hactive)] at h
    have hstale : Dealings S s _ :=
      .single (.loses (.releaseStaleRequests env.now (h (s, env.now) (List.mem_singleton_self _))))
    refine (hstale.trans (dealings_foldl ?_ _ _)).trans (dealings_fillAllPeerRequestWindows _ _)
    intro s change
    unfold tellChoked
    split
    · rename_i ref _
      have htold : (Effect.tell ref (.setChoked change.2)).AsksNothing := trivial
      split
      · exact .single (.loses (.emits htold s))
      · exact .refl
    · exact .refl

theorem dealings_start {env : StartEnv} (h : ∀ point ∈ s.startRechokes env, MayExpire S point) :
    Dealings S s (s.start env) := by
  unfold start
  unfold startRechokes at h
  split
  · exact .refl
  · rename_i hcan
    rw [if_neg hcan] at h
    cases hinfo : s.infoDict with
    | none => exact .single (.loses (.silent rfl rfl rfl rfl rfl))
    | some info =>
        rw [hinfo] at h
        dsimp only at h ⊢
        cases hstart : preStart info env.preStart s.pieceManager with
        | none => exact .single (.loses (.silent rfl rfl rfl rfl rfl))
        | some manager =>
            rw [hstart] at h
            have henter : Dealings S s (s.sendReadyHooks.enterTransfer manager) :=
              .single (.loses (.silent rfl rfl rfl rfl rfl))
            exact (henter.trans (dealings_fillInitialWindows _ _)).trans (dealings_rechokePeers h)

theorem dealings_autostartCheck {env : StartEnv} (h : ∀ point ∈ s.autostartRechokes env, MayExpire S point) :
    Dealings S s (s.autostartCheck env) := by
  have hend : ∀ t : TorrentActor H, Dealings S t { t with pendingStart := false } :=
    fun t => .single (.loses (.silent rfl rfl rfl rfl rfl))
  unfold autostartCheck
  unfold autostartRechokes at h
  split
  · exact hend s
  · rename_i hready
    split
    · rename_i hauto
      rw [if_pos (by simp [hauto, hready])] at h
      have hbegin : Dealings S s { s with pendingStart := true } := .single (.loses (.silent rfl rfl rfl rfl rfl))
      exact (hbegin.trans (dealings_start h)).trans (hend _)
    · exact .single (.loses (.silent rfl rfl rfl rfl rfl))

/-- **The check before a message.** -/
theorem dealings_next {env : StartEnv} (h : ∀ point ∈ s.nextRechokes env, MayExpire S point) :
    Dealings S { s with outbox := [] } (s.next env) := by
  unfold next
  unfold nextRechokes at h
  split
  · exact .refl
  · rename_i hpending
    rw [if_neg hpending] at h
    exact dealings_autostartCheck h

/-! ### Storage and pausing -/

theorem loses_leaveFailed {t : TorrentActor H} (h : Loses S s t) : Loses S s t.leaveFailed := by
  unfold leaveFailed
  split
  · exact ⟨h.settings, h.peers, h.counted, h.owned, h.lost, h.sent⟩
  · exact h

/-- The three messages that change where data goes. -/
theorem loses_setPieceStorage (strategy : PieceStorageStrategy) (created : Bool) (s : TorrentActor H) :
    Loses S s (s.setPieceStorage strategy created) := by
  rcases setPieceStorage_cases strategy created s with heq | heq
  · rw [heq]
    exact .silent rfl rfl rfl rfl rfl
  · rw [heq]
    exact loses_leaveFailed (.silent rfl rfl rfl rfl rfl)

theorem loses_setPieceManager (preStarted : Bool) (s : TorrentActor H) : Loses S s (s.setPieceManager preStarted) := by
  rcases setPieceManager_cases preStarted s with heq | heq
  · rw [heq]
    exact .silent rfl rfl rfl rfl rfl
  · rw [heq]
    exact .silent rfl rfl rfl rfl rfl

theorem loses_setOutputPath (path : Path) (created : Bool) (s : TorrentActor H) :
    Loses S s (s.setOutputPath path created) := by
  rcases setOutputPath_cases path created s with heq | ⟨manager, -, heq⟩
  · rw [heq]
    exact .silent rfl rfl rfl rfl rfl
  · rw [heq]
    exact loses_leaveFailed (.silent rfl rfl rfl rfl rfl)

theorem dealings_stopTransfer (env : BroadcastEnv) (s : TorrentActor H) : Dealings S s (s.stopTransfer env) := by
  have hpause : Loses S s (s.transitionState .paused) := .silent rfl rfl rfl rfl rfl
  have hchoke : ∀ ref, (Effect.tell ref (.setChoked true)).AsksNothing := fun _ => trivial
  unfold stopTransfer
  split
  · exact .refl
  · split
    · exact .tail (.single (.loses hpause)) (.loses (.broadcastToPeers hchoke env _))
    · exact .single (.loses hpause)

/-! ### Blocks -/

section Blocks

variable [DecidableEq H] {c : Codec H}

/-- Where and when the handling of a block looks for stale requests: after the last piece has been committed. -/
def blockRechokes (c : Codec H) (p : PeerId) (index offset : ℕ) (block : Bytes) (env : BlockEnv)
    (s : TorrentActor H) : List (TorrentActor H × ℕ) :=
  match s.infoDict with
  | none => []
  | some info =>
      match checkBlock info index offset block.length with
      | none => []
      | some n =>
          let written := s.writeBlockToStorage c index offset block env.write
          let recorded := written.1.recorded p index offset block.length n env.cancelSent
          let committed := (recorded.received index).validateAndCommitPiece c index env
          let told := (committed.1.completePiece index).broadcastToPeersBestEffort (.have index) env.broadcast
          if s.pieceScheduler.isDuplicateBlock index (offset / blockSize) = false ∧ written.2 = true ∧
              recorded.pieceScheduler.isPieceComplete index = true ∧ committed.2 = true ∧
              (told.infoDict.map Info.pieceCount).getD 0 ≤ told.pieceScheduler.nextPiece then
            (told.transitionState .seeding).rechokesAt env.rechoke
          else []

omit [DecidableEq H] in
theorem loses_recorded (p : PeerId) (index offset length n : ℕ) (sent : Bool) (hS : S s index (offset / blockSize)) :
    Loses S s (s.recorded p index offset length n sent) := by
  obtain ⟨new, hout, hnew⟩ := outbox_recorded p index offset length n sent s
  have hframe := recorded_frame p index offset length n sent s
  have hsched : (s.recorded p index offset length n sent).pieceScheduler =
      (s.pieceScheduler.markBlockComplete index (offset / blockSize) n).1 := by
    rw [hframe]
    rfl
  rw [PieceScheduler.markBlockComplete_fst] at hsched
  refine .takeBack hsched rfl rfl ?_ ?_ ⟨new, hout, ?_⟩ hS
  · rw [hframe]
    rfl
  · rw [hframe]
    rfl
  · intro e he
    rcases hnew e he with rfl | rfl | ⟨q, ref, -, rfl⟩
    · trivial
    · trivial
    · trivial

omit [DecidableEq H] in
theorem loses_writeBlockToStorage (index offset : ℕ) (block : Bytes) (env : WriteEnv) (s : TorrentActor H) :
    Loses S s (s.writeBlockToStorage c index offset block env).1 := by
  rw [writeBlockToStorage_eq]
  exact .silent rfl rfl rfl rfl rfl

theorem loses_validateAndCommitPiece (index : ℕ) (env : BlockEnv) (s : TorrentActor H) :
    Loses S s (s.validateAndCommitPiece c index env).1 := by
  rw [validateAndCommitPiece_eq]
  exact .silent rfl rfl rfl rfl rfl

/-- From the moment a block has been recorded. -/
theorem dealings_acceptBlock {p : PeerId} {index offset length n : ℕ} {env : BlockEnv}
    (h : (s.recorded p index offset length n env.cancelSent).pieceScheduler.isPieceComplete index = true →
      let committed := ((s.recorded p index offset length n env.cancelSent).received index).validateAndCommitPiece c
        index env
      let told := (committed.1.completePiece index).broadcastToPeersBestEffort (.have index) env.broadcast
      committed.2 = true → (told.infoDict.map Info.pieceCount).getD 0 ≤ told.pieceScheduler.nextPiece →
      ∀ point ∈ (told.transitionState .seeding).rechokesAt env.rechoke, MayExpire S point) :
    Dealings S (s.recorded p index offset length n env.cancelSent) (s.acceptBlock c p index offset length n env) := by
  unfold acceptBlock
  dsimp only
  change Dealings S _ (if (s.recorded p index offset length n env.cancelSent).pieceScheduler.isPieceComplete index then
    ((s.recorded p index offset length n env.cancelSent).emit (.pieceReceived index)).pieceCompleted c p index env
    else (s.recorded p index offset length n env.cancelSent).fillPeerRequestWindow p env.fill)
  generalize s.recorded p index offset length n env.cancelSent = u at h ⊢
  split
  · rename_i hcomplete
    have hrow : Dealings S u (u.received index) := by
      refine .single (.loses (.idle rfl (fun _ _ h => h) rfl rfl ⟨[.pieceReceived index], rfl, ?_⟩))
      intro e he
      rw [List.mem_singleton.1 he]
      trivial
    have hcommit := hrow.tail (.loses (loses_validateAndCommitPiece (c := c) index env (u.received index)))
    have h := h hcomplete
    unfold pieceCompleted
    dsimp only at h ⊢
    change Dealings S u (if ((u.received index).validateAndCommitPiece c index env).2 = false then
      ((u.received index).validateAndCommitPiece c index env).1.fillPeerRequestWindow p env.fill else
      ((((u.received index).validateAndCommitPiece c index env).1.completePiece index).broadcastToPeersBestEffort
        (.have index) env.broadcast).continueAfterPiece p env)
    generalize (u.received index).validateAndCommitPiece c index env = committed at h hcommit ⊢
    split
    · exact hcommit.trans (dealings_fillPeerRequestWindow p _ _)
    · rename_i hcommitted
      have hdone : Dealings S u (committed.1.completePiece index) :=
        hcommit.tail (.loses (.silent rfl rfl rfl rfl rfl))
      have hhave : ∀ ref, (Effect.tell ref (.have index)).AsksNothing := fun _ => trivial
      have htold := hdone.tail (.loses (.broadcastToPeersBestEffort hhave env.broadcast _))
      refine htold.trans ?_
      have h := h (by simpa using hcommitted)
      unfold continueAfterPiece
      split
      · rename_i hlast
        have hseed : ∀ v : TorrentActor H, Dealings S v (v.transitionState .seeding) :=
          fun v => .single (.loses (.silent rfl rfl rfl rfl rfl))
        exact (hseed _).trans (dealings_rechokePeers (h hlast))
      · exact dealings_fillPeerRequestWindow p _ _
  · exact dealings_fillPeerRequestWindow p _ _

/-- **The handling of a block**, which takes back its request. -/
theorem dealings_handleIncomingPiece {p : PeerId} {index offset : ℕ} {block : Bytes} {env : BlockEnv}
    (hS : (∃ info n, s.Accepts index offset block.length info n) →
      (s.writeBlockToStorage c index offset block env.write).2 = true →
      S (s.writeBlockToStorage c index offset block env.write).1 index (offset / blockSize))
    (hrechoke : ∀ point ∈ s.blockRechokes c p index offset block env, MayExpire S point) :
    Dealings S s (s.handleIncomingPiece c p index offset block env) := by
  by_cases hacc : ∃ info n, s.Accepts index offset block.length info n
  · have hS := hS hacc
    obtain ⟨info, n, ha⟩ := hacc
    rw [handleIncomingPiece_of_accepts ha]
    have hwritten : Dealings S s (s.writeBlockToStorage c index offset block env.write).1 :=
      .single (.loses (loses_writeBlockToStorage index offset block env.write s))
    split
    · exact hwritten
    · rename_i hw
      have hw : (s.writeBlockToStorage c index offset block env.write).2 = true := by simpa using hw
      refine (hwritten.tail (.loses (loses_recorded p index offset block.length n env.cancelSent (hS hw)))).trans
        (dealings_acceptBlock ?_)
      intro hcomplete
      dsimp only
      intro hcommitted hlast
      unfold blockRechokes at hrechoke
      rw [ha.info] at hrechoke
      dsimp only at hrechoke
      rw [ha.check] at hrechoke
      dsimp only at hrechoke
      rw [if_pos ⟨ha.fresh, hw, hcomplete, hcommitted, hlast⟩] at hrechoke
      exact hrechoke
  · rw [handleIncomingPiece_of_not_accepts c s p env hacc]

/-! ### Messages -/

/-- Where and when the handler of a message looks for stale requests. -/
def messageRechokes (s : TorrentActor H) : TorrentMessage c → List (TorrentActor H × ℕ)
  | .incomingPiece p index offset block env => s.blockRechokes c p index offset block env
  | .setState .downloading start _ | .setState .seeding start _ => s.startRechokes start
  | .setAutoStart auto env => if s.pendingStart then [] else { s with autostart := auto }.autostartRechokes env
  | .setSufficientPeers peers env =>
      if s.pendingStart then [] else { s with sufficientPeers := peers }.autostartRechokes env
  | .rechoke env => s.rechokesAt env
  | .readyHook env =>
      if s.state = .ready ∨ s.state.isTransferActive = true ∨ (s.isReadyToStart && !s.autostart) = true then []
      else { s with readyHook := s.readyHook + 1 }.autostartRechokes env
  | _ => []

/-- **Where and when a round releases stale requests.** -/
def rechokes (s : TorrentActor H) (i : Input c) : List (TorrentActor H × ℕ) :=
  s.nextRechokes i.check ++ (s.next i.check).messageRechokes i.message

theorem dealings_infoBytes (bytes : Bytes) (env : BroadcastEnv) (s : TorrentActor H) :
    Dealings S s (s.infoBytes c bytes env) := by
  rcases infoBytes_cases c bytes env s with heq | ⟨info, -, -, -, heq⟩
  · rw [heq]
  · rw [heq]
    have hresolve : Loses S s (s.resolveMetadata info) := .silent rfl rfl rfl rfl rfl
    have hdict : ∀ ref, (Effect.tell ref (.haveInfoDict (List.replicate info.pieceCount false))).AsksNothing :=
      fun _ => trivial
    exact .tail (.single (.loses hresolve)) (.loses (.broadcastToPeers hdict env _))

theorem dealings_readyHookMessage {env : StartEnv}
    (h : ∀ point ∈ s.messageRechokes (.readyHook env : TorrentMessage c), MayExpire S point) :
    Dealings S s (s.readyHookMessage env) := by
  have hset : Loses S s { s with readyHook := s.readyHook + 1 } := .silent rfl rfl rfl rfl rfl
  simp only [messageRechokes] at h
  unfold readyHookMessage
  split
  · exact .refl
  · rename_i hstate
    split
    · exact .refl
    · rename_i hready
      rw [if_neg (by tauto)] at h
      exact .trans (.single (.loses hset)) (dealings_autostartCheck h)

/-- **The handling of every message** but a connection and a snapshot. -/
theorem dealings_handle {m : TorrentMessage c} (hconnect : ∀ id ref, m ≠ .peerConnected id ref)
    (hrestore : ∀ v, m ≠ .restoreSnapshot v)
    (hblock : ∀ p index offset block env, m = .incomingPiece p index offset block env →
      (∃ info n, s.Accepts index offset block.length info n) →
      (s.writeBlockToStorage c index offset block env.write).2 = true →
      S (s.writeBlockToStorage c index offset block env.write).1 index (offset / blockSize))
    (hreject : ∀ p index offset env, m = .peerRejectedRequest p index offset env →
      ∀ x, s.pieceScheduler.inFlightAt index (offset / blockSize) = some x → x.peerId = p →
      S s index (offset / blockSize))
    (hrechoke : ∀ point ∈ s.messageRechokes m, MayExpire S point) : Dealings S s (s.handle m) := by
  have hsilent : ∀ {t : TorrentActor H}, Loses S s t → Dealings S s t := fun h => .single (.loses h)
  cases m with
  | peerConnected id ref => exact absurd rfl (hconnect id ref)
  | restoreSnapshot v => exact absurd rfl (hrestore v)
  | incomingPiece p index offset block env =>
      exact dealings_handleIncomingPiece (hblock p index offset block env rfl) hrechoke
  | peerRejectedRequest p index offset env =>
      exact (hsilent (.releasePeerRequest p index offset (hreject p index offset env rfl))).trans
        (dealings_fillPeerRequestWindow p env _)
  | infoBytes bytes env => exact dealings_infoBytes bytes env s
  | peerReady id bits alive env =>
      have hnoted : Loses S s (s.mapScheduler (·.updatePeerAvailability id bits)) := .silent rfl rfl rfl rfl rfl
      simp only [handle, peerReady]
      split
      · exact (hsilent hnoted).trans (dealings_fillPeerRequestWindow id env _)
      · exact hsilent hnoted
  | disconnectPeer id env =>
      simp only [handle]
      split
      · exact (hsilent (.removePeer id s)).trans (dealings_fillAllPeerRequestWindows env _)
      · exact hsilent (.removePeer id s)
  | killPeer id env => exact (hsilent (.removePeer id s)).trans (dealings_fillAllPeerRequestWindows env _)
  | setPieceStorage strategy created => exact hsilent (loses_setPieceStorage strategy created s)
  | setPieceManager preStarted => exact hsilent (loses_setPieceManager preStarted s)
  | setOutputPath path created => exact hsilent (loses_setOutputPath path created s)
  | setState state start stop =>
      cases state with
      | downloading => exact dealings_start hrechoke
      | seeding => exact dealings_start hrechoke
      | paused => exact dealings_stopTransfer stop s
      | _ => exact hsilent (.silent rfl rfl rfl rfl rfl)
  | setAutoStart auto env =>
      have hset : Loses S s { s with autostart := auto } := .silent rfl rfl rfl rfl rfl
      simp only [messageRechokes] at hrechoke
      simp only [handle]
      split
      · exact hsilent hset
      · rename_i hpending
        rw [if_neg hpending] at hrechoke
        exact (hsilent hset).trans (dealings_autostartCheck hrechoke)
  | setSufficientPeers peers env =>
      have hset : Loses S s { s with sufficientPeers := peers } := .silent rfl rfl rfl rfl rfl
      simp only [messageRechokes] at hrechoke
      simp only [handle]
      split
      · exact hsilent hset
      · rename_i hpending
        rw [if_neg hpending] at hrechoke
        exact (hsilent hset).trans (dealings_autostartCheck hrechoke)
  | rechoke env => exact dealings_rechokePeers hrechoke
  | readyHook env => exact dealings_readyHookMessage hrechoke
  | query => exact .refl
  | sharedHave id index =>
      simp only [handle]
      split
      · exact .refl
      · exact hsilent (.silent rfl rfl rfl rfl rfl)
  | background n k =>
      change Dealings _ s (s.writeLate n k)
      rw [writeLate_eq]
      exact hsilent (.silent rfl rfl rfl rfl rfl)
  | stop normal =>
      refine hsilent (.idle rfl (fun _ _ h => h) rfl rfl ⟨_, rfl, ?_⟩)
      intro e he
      obtain ⟨peer, -, rfl⟩ := List.mem_map.1 he
      trivial

end Blocks

end TorrentActor

end Tortillas
