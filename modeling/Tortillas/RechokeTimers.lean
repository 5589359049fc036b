/-
**The timers of the rechokes.**

A torrent that transfers rechokes its peers from time to time.  `schedule_next_rechoke` asks the scheduler
for a timer, or starts one of its own when that fails, and keeps a handle to it; the timer sends the torrent
a `Rechoke`, whose handler schedules the next one.  A timer that is replaced is aborted, and so is the one of
a torrent that stops.  A timer fires at any time: its message may wait in the mailbox while the torrent is
paused and started again, and it may fire while a handler is on its way to abort it.

A handler that announces the beginning or the end of a download comes to `schedule_next_rechoke` in the same
branch, at its end, so that `TorrentActor.messageEvents` tells which handlers schedule a rechoke.

Main definitions:

* `TimerAction`, `TorrentActor.messageTimer` — what a handler does with the timer;
* `TimedTorrent` — the torrent with its timers and the rechokes in its mailbox;
* `TimedTorrent.scheduleNextRechoke`, `TimedTorrent.abortNextRechoke`;
* `TimedTorrent.Chained` — the invariant of the chain of rechokes.

Main results:

* `TorrentActor.follows_handle` — what handlers do with the timer follows from what they do to the state;
* `TimedTorrent.Chained.act` — what a handler does keeps the chain;
* `TimedTorrent.torrent_of_reach` — the torrent runs as it does without timers;
* `rechoke_chain` — **the chain neither ends nor multiplies**.
-/

import Tortillas.TrackerEvents

set_option relaxedAutoImplicit false
set_option autoImplicit false

namespace Tortillas

/-! ### What handlers do with the timer -/

inductive TimerAction
  | keep
  | abort
  | schedule
  deriving DecidableEq

/-- A branch that announces an event schedules a rechoke. -/
def TimerAction.ofEvents : List Event → TimerAction
  | [] => .keep
  | _ :: _ => .schedule

namespace TorrentActor

variable {H : Type}

def nextTimer (env : StartEnv) (s : TorrentActor H) : TimerAction := .ofEvents (s.nextEvents env)

variable [DecidableEq H] {c : Codec H}

def messageTimer (s : TorrentActor H) : TorrentMessage c → TimerAction
  | .rechoke _ => .schedule
  | .setState .paused _ _ => if s.state = .paused then .keep else .abort
  | .stop _ => .abort
  | m => .ofEvents (s.messageEvents m)

end TorrentActor

/-! ### The torrent with its timers -/

/-- Who waits until a timer is due. -/
inductive TimerSource
  | scheduler
  /-- The task that is spawned when the scheduler fails. -/
  | fallback
  deriving DecidableEq

structure TimedTorrent (H : Type) where
  torrent : TorrentActor H
  /-- The check before the next message has been made. -/
  checked : Bool
  nextRechoke : Option ℕ
  /-- The timers that have neither fired nor been aborted. -/
  live : HashMap ℕ TimerSource
  freshTimer : ℕ
  /-- How many `Rechoke` messages of timers are in the mailbox. -/
  waiting : ℕ

/-- While a handler runs: whether the timer fires before the handler comes to it, and whether the scheduler
answers. -/
structure TimerEnv where
  early : Bool
  scheduled : Bool

inductive TimedInput {H : Type} [DecidableEq H] (c : Codec H)
  | fire (timer : ℕ)
  | check (env : StartEnv) (timer : TimerEnv)
  | message (m : TorrentMessage c) (timer : TimerEnv)
  /-- A `Rechoke` of a timer is taken from the mailbox. -/
  | rechoke (env : RechokeEnv) (timer : TimerEnv)

namespace TimedTorrent

variable {H : Type}

/-- A timer sends its message. -/
def fire (timer : ℕ) (s : TimedTorrent H) : TimedTorrent H :=
  if s.live.contains timer then { s with live := s.live.erase timer, waiting := s.waiting + 1 } else s

/-- `next_rechoke.take()` and `abort`. -/
def abortNextRechoke (s : TimedTorrent H) : TimedTorrent H :=
  match s.nextRechoke with
  | none => s
  | some timer => { s with nextRechoke := none, live := s.live.erase timer }

/-- A new timer, and its handle. -/
def hold (source : TimerSource) (s : TimedTorrent H) : TimedTorrent H :=
  { s with
    nextRechoke := some s.freshTimer
    live := s.live.insert s.freshTimer source
    freshTimer := s.freshTimer + 1 }

def scheduleNextRechoke (scheduled : Bool) (s : TimedTorrent H) : TimedTorrent H :=
  if s.torrent.state.isTransferActive = false then s
  else s.abortNextRechoke.hold (if scheduled then .scheduler else .fallback)

/-- The timer fires while a handler runs that has not come to it. -/
def fireEarly (early : Bool) (s : TimedTorrent H) : TimedTorrent H :=
  match s.nextRechoke with
  | some timer => if early then s.fire timer else s
  | none => s

/-- A handler changes the torrent, and does something with the timer. -/
def act (torrent : TorrentActor H) (action : TimerAction) (env : TimerEnv) (s : TimedTorrent H) :
    TimedTorrent H :=
  let handled := { s.fireEarly env.early with torrent := torrent }
  match action with
  | .keep => handled
  | .abort => handled.abortNextRechoke
  | .schedule => handled.scheduleNextRechoke env.scheduled

variable [DecidableEq H] {c : Codec H}

def apply (s : TimedTorrent H) : TimedInput c → TimedTorrent H
  | .fire timer => s.fire timer
  | .check env timer =>
      { s.act (s.torrent.next env) (s.torrent.nextTimer env) timer with checked := true }
  | .message m timer =>
      { s.act (s.torrent.handle m) (s.torrent.messageTimer m) timer with checked := false }
  | .rechoke env timer =>
      { { s with waiting := s.waiting - 1 }.act (s.torrent.handle (.rechoke env : TorrentMessage c))
          (s.torrent.messageTimer (.rechoke env : TorrentMessage c)) timer with checked := false }

/-- A message is handled after the check, and a `Rechoke` if there is one. -/
def Admits (s : TimedTorrent H) : TimedInput c → Prop
  | .fire _ => True
  | .check _ _ => s.checked = false
  | .message m _ => s.checked = true ∧ s.torrent.RestoresOwn m
  | .rechoke _ _ => s.checked = true ∧ 0 < s.waiting

end TimedTorrent

/-- The torrent and its timers as a transition system. -/
def timedSystem {H : Type} [DecidableEq H] (c : Codec H) : System (TimedTorrent H) (TimedInput c) where
  init s := (torrentSystem c).init s.torrent ∧ s = ⟨s.torrent, false, none, ∅, 0, 0⟩
  step s i t := s.Admits i ∧ t = s.apply i

/-! ### The state follows the timer -/

/-- What becomes of the state when a handler does something with the timer. -/
def TimerAction.Follows : TimerAction → TorrentState → TorrentState → Prop
  | .keep, before, after => after = before ∨ after.isTransferActive = false ∧ after ≠ .paused
  | .abort, _, after => after.isTransferActive = false
  | .schedule, before, after => after = before ∨ after.isTransferActive = true

/-- The messages that can lead to a pause without stopping: storage is configured anew, or a snapshot
restored. -/
def TorrentMessage.Reconfigures {H : Type} [DecidableEq H] {c : Codec H} : TorrentMessage c → Prop
  | .setPieceStorage .. | .setOutputPath .. | .restoreSnapshot .. => True
  | _ => False

namespace TorrentActor

variable {H : Type} {s : TorrentActor H}

/-- A start that announces it leads to a transfer; one that does not leaves the state, or ends without. -/
theorem follows_start (env : StartEnv) (s : TorrentActor H) :
    (TimerAction.ofEvents (s.startEvents env)).Follows s.state (s.start env).state := by
  unfold startEvents start
  split
  · exact .inl rfl
  · cases s.infoDict with
    | none => exact .inr ⟨rfl, nofun⟩
    | some info =>
        dsimp only
        cases preStart info env.preStart s.pieceManager with
        | none => exact .inr ⟨rfl, nofun⟩
        | some manager =>
            have hreq := (requesting_fillInitialWindows env.fillAll
              (s.sendReadyHooks.enterTransfer manager)).trans (requesting_rechokePeers env.rechoke _)
            refine .inr ?_
            dsimp only
            rw [hreq.state]
            change TorrentState.isTransferActive (if s.isFull = true then .seeding else .downloading) = true
            split
            · rfl
            · rfl

theorem follows_autostartCheck (env : StartEnv) (s : TorrentActor H) :
    (TimerAction.ofEvents (s.autostartEvents env)).Follows s.state (s.autostartCheck env).state := by
  unfold autostartEvents autostartCheck
  split
  · exact .inl rfl
  · split
    · exact follows_start env { s with pendingStart := true }
    · exact .inr ⟨rfl, nofun⟩

theorem follows_next (env : StartEnv) (s : TorrentActor H) :
    (s.nextTimer env).Follows s.state (s.next env).state := by
  unfold nextTimer nextEvents TorrentActor.next
  split
  · exact .inl rfl
  · exact follows_autostartCheck env { s with outbox := [] }

theorem follows_continueAfterPiece (p : PeerId) (env : BlockEnv) (s : TorrentActor H) :
    (TimerAction.ofEvents s.continueEvents).Follows s.state (s.continueAfterPiece p env).state := by
  unfold continueEvents continueAfterPiece
  split
  · rw [(requesting_rechokePeers env.rechoke _).state]
    exact .inr rfl
  · exact .inl (requesting_fillPeerRequestWindow p env.fill s).state

variable [DecidableEq H] {c : Codec H}

/-- A piece that completes the download leads to a transfer, and the others leave the state. -/
theorem follows_pieceCompleted (p : PeerId) (index : ℕ) (env : BlockEnv) (s : TorrentActor H) :
    (TimerAction.ofEvents (s.pieceEvents c index env)).Follows s.state (s.pieceCompleted c p index env).state := by
  have hcommit := validateAndCommitPiece_eq c index env (s.mapScheduler (·.removePieceBlocks index))
  unfold pieceEvents pieceCompleted
  generalize (s.mapScheduler (·.removePieceBlocks index)).validateAndCommitPiece c index env = committed
    at hcommit ⊢
  have hstate : committed.1.state = s.state := by
    rw [hcommit]
    rfl
  dsimp only
  split
  · exact .inl ((requesting_fillPeerRequestWindow p env.fill _).state.trans hstate)
  · have hfollows := follows_continueAfterPiece p env
      ((committed.1.completePiece index).broadcastToPeersBestEffort (.have index) env.broadcast)
    rw [← hstate]
    exact hfollows

theorem follows_handleIncomingPiece (p : PeerId) (index offset : ℕ) (block : Bytes) (env : BlockEnv)
    (s : TorrentActor H) :
    (TimerAction.ofEvents (s.incomingEvents c p index offset block env)).Follows s.state
      (s.handleIncomingPiece c p index offset block env).state := by
  have hwrite := writeBlockToStorage_eq c index offset block env.write s
  unfold incomingEvents handleIncomingPiece
  cases s.infoDict with
  | none => exact .inl rfl
  | some info =>
      dsimp only
      cases checkBlock info index offset block.length with
      | none => exact .inl rfl
      | some n =>
          dsimp only
          generalize s.writeBlockToStorage c index offset block env.write = written at hwrite ⊢
          have hstate : written.1.state = s.state := by
            rw [hwrite]
          split
          · exact .inl rfl
          · split
            · exact .inl hstate
            · unfold acceptEvents acceptBlock
              generalize (written.1.pieceScheduler.markBlockComplete index (offset / blockSize) n).2 = assigned
              have heq := recorded_eq p assigned index offset block.length n env.cancelSent written.1
              dsimp only
              generalize TorrentActor.cancelAssigned p assigned index offset block.length env.cancelSent _ =
                recorded at heq ⊢
              have hrecorded : recorded.state = s.state := by
                rw [heq]
                exact hstate
              split
              · rw [← hrecorded]
                exact follows_pieceCompleted p index env (recorded.emit (.pieceReceived index))
              · exact .inl ((requesting_fillPeerRequestWindow p env.fill recorded).state.trans hrecorded)

/-- **What a handler does to the state follows from what it does with the timer**, unless it configures the
torrent anew. -/
theorem follows_handle (s : TorrentActor H) {m : TorrentMessage c} (hm : ¬m.Reconfigures) :
    (s.messageTimer m).Follows s.state (s.handle m).state := by
  cases m with
  | incomingPiece p index offset block env => exact follows_handleIncomingPiece p index offset block env s
  | setState state start stop =>
      cases state with
      | downloading => exact follows_start start s
      | seeding => exact follows_start start s
      | paused =>
          change (if s.state = .paused then TimerAction.keep else .abort).Follows s.state
            (s.stopTransfer stop).state
          rw [state_stopTransfer]
          split
          · rename_i hpaused
            exact .inl hpaused.symm
          · rfl
      | _ =>
          refine .inr ⟨rfl, ?_⟩
          intro h
          cases h
  | setAutoStart auto env =>
      change (TimerAction.ofEvents (if s.pendingStart then _ else _)).Follows _
        (if s.pendingStart then _ else _ : TorrentActor H).state
      split
      · exact .inl rfl
      · exact follows_autostartCheck env { s with autostart := auto }
  | setSufficientPeers peers env =>
      change (TimerAction.ofEvents (if s.pendingStart then _ else _)).Follows _
        (if s.pendingStart then _ else _ : TorrentActor H).state
      split
      · exact .inl rfl
      · exact follows_autostartCheck env { s with sufficientPeers := peers }
  | readyHook env =>
      change (TimerAction.ofEvents (s.messageEvents (.readyHook env : TorrentMessage c))).Follows _
        (s.readyHookMessage env).state
      rw [readyHookMessage, messageEvents]
      split
      · exact .inl rfl
      · split
        · exact .inl rfl
        · exact follows_autostartCheck env { s with readyHook := s.readyHook + 1 }
  | infoBytes bytes env =>
      change TimerAction.keep.Follows s.state (s.infoBytes c bytes env).state
      rcases infoBytes_cases c bytes env s with heq | ⟨info, -, -, -, heq⟩
      · rw [heq]
        exact .inl rfl
      · rw [heq]
        change TimerAction.keep.Follows s.state (if s.state = .resolvingMetadata then .added else s.state)
        split
        · refine .inr ⟨rfl, ?_⟩
          intro h
          cases h
        · exact .inl rfl
  | rechoke env => exact .inl (requesting_rechokePeers env s).state
  | stop normal => cases normal <;> rfl
  | setPieceStorage => exact absurd trivial hm
  | setOutputPath => exact absurd trivial hm
  | restoreSnapshot => exact absurd trivial hm
  | _ => exact .inl (state_handle_of_plain s id id id)

end TorrentActor

/-! ### The chain -/

namespace TimedTorrent

variable {H : Type} {s : TimedTorrent H}

/-- No timer is live but the one that is held, and none while the torrent is paused. -/
structure Single (s : TimedTorrent H) : Prop where
  held : ∀ timer, s.live.contains timer = true → s.nextRechoke = some timer
  quiet : s.torrent.state = .paused → ∀ timer, s.live.contains timer = false

/-- The timer that is held is live, or a rechoke waits. -/
def Going (s : TimedTorrent H) : Prop :=
  (∃ timer, s.nextRechoke = some timer ∧ s.live.contains timer = true) ∨ 0 < s.waiting

/-- **The invariant of the chain.** -/
structure Chained (s : TimedTorrent H) : Prop extends Single s where
  going : s.torrent.state.isTransferActive = true → s.Going

theorem contains_erase_eq_true {K V : Type} [DecidableEq K] {m : HashMap K V} {k k' : K}
    (h : (m.erase k).contains k' = true) : k' ≠ k ∧ m.contains k' = true := by
  rw [HashMap.contains, HashMap.get?_erase] at h
  split at h
  · cases h
  · rename_i hne
    exact ⟨hne, h⟩

theorem Single.fire (hs : s.Single) (timer : ℕ) : (s.fire timer).Single := by
  unfold TimedTorrent.fire
  split
  · refine ⟨fun other h => hs.held other (contains_erase_eq_true h).2, fun hpaused other => ?_⟩
    by_contra h
    have hother := (contains_erase_eq_true (Bool.eq_true_of_not_eq_false h)).2
    rw [hs.quiet hpaused other] at hother
    cases hother
  · exact hs

/-- A timer that fires leaves its message. -/
theorem Going.fire (hs : s.Going) (timer : ℕ) : (s.fire timer).Going := by
  unfold TimedTorrent.fire
  split
  · exact .inr (Nat.succ_pos _)
  · exact hs

theorem fire_torrent (timer : ℕ) (s : TimedTorrent H) : (s.fire timer).torrent = s.torrent := by
  unfold fire
  split <;> rfl

theorem Chained.fire (hs : s.Chained) (timer : ℕ) : (s.fire timer).Chained := by
  refine ⟨hs.toSingle.fire timer, ?_⟩
  rw [fire_torrent]
  exact fun hactive => (hs.going hactive).fire timer

theorem fireEarly_cases (early : Bool) (s : TimedTorrent H) :
    s.fireEarly early = s ∨ ∃ timer, s.fireEarly early = s.fire timer := by
  unfold fireEarly
  split
  · split
    · exact .inr ⟨_, rfl⟩
    · exact .inl rfl
  · exact .inl rfl

theorem Single.fireEarly (hs : s.Single) (early : Bool) : (s.fireEarly early).Single := by
  rcases fireEarly_cases early s with heq | ⟨timer, heq⟩
  · rwa [heq]
  · rw [heq]
    exact hs.fire timer

theorem Chained.fireEarly (hs : s.Chained) (early : Bool) : (s.fireEarly early).Chained := by
  rcases fireEarly_cases early s with heq | ⟨timer, heq⟩
  · rwa [heq]
  · rw [heq]
    exact hs.fire timer

theorem fireEarly_torrent (early : Bool) (s : TimedTorrent H) : (s.fireEarly early).torrent = s.torrent := by
  rcases fireEarly_cases early s with heq | ⟨timer, heq⟩
  · rw [heq]
  · rw [heq, fire_torrent]

/-- The only live timer is aborted. -/
theorem live_abortNextRechoke (hs : ∀ timer, s.live.contains timer = true → s.nextRechoke = some timer)
    (timer : ℕ) : s.abortNextRechoke.live.contains timer = false := by
  by_contra h
  have hlive := Bool.eq_true_of_not_eq_false h
  unfold abortNextRechoke at hlive
  split at hlive
  · rename_i hnone
    cases hnone.symm.trans (hs timer hlive)
  · rename_i other hother
    obtain ⟨hne, hlive⟩ := contains_erase_eq_true hlive
    cases hother.symm.trans (hs timer hlive)
    exact hne rfl

theorem abortNextRechoke_torrent (s : TimedTorrent H) : s.abortNextRechoke.torrent = s.torrent := by
  unfold abortNextRechoke
  split <;> rfl

/-- **A handler that schedules a rechoke restores the chain**, even if none was waiting. -/
theorem Single.schedule (hs : s.Single) {torrent : TorrentActor H} {env : TimerEnv}
    (h : TimerAction.schedule.Follows s.torrent.state torrent.state) :
    (s.act torrent .schedule env).Chained := by
  have hearly := hs.fireEarly env.early
  have hsame := fireEarly_torrent env.early s
  unfold act
  dsimp only
  generalize s.fireEarly env.early = u at hearly hsame
  unfold scheduleNextRechoke
  split
  · rename_i hidle
    -- The torrent does not transfer; then its state is what it was, and so are the timers.
    have hstate : torrent.state = u.torrent.state := by
      rcases h with h | h
      · rw [h, hsame]
      · cases hidle.symm.trans h
    refine ⟨⟨hearly.held, fun hpaused => hearly.quiet (hstate ▸ hpaused)⟩, fun hactive => ?_⟩
    cases hidle.symm.trans hactive
  · rename_i hactive
    set v : TimedTorrent H := { u with torrent := torrent } with hv
    have hnone := live_abortNextRechoke (s := v) hearly.held
    have htorrent := abortNextRechoke_torrent v
    refine ⟨⟨?_, ?_⟩, fun _ => .inl ⟨v.abortNextRechoke.freshTimer, rfl, ?_⟩⟩
    · intro timer hlive
      change (HashMap.insert _ _ _).contains timer = true at hlive
      rw [HashMap.contains, HashMap.get?_insert] at hlive
      split at hlive
      · rename_i heq
        rw [heq]
        rfl
      · have hfalse := hnone timer
        rw [HashMap.contains, hlive] at hfalse
        cases hfalse
    · intro hpaused
      change v.abortNextRechoke.torrent.state = .paused at hpaused
      rw [htorrent] at hpaused
      exact absurd (by rw [hpaused]; rfl) hactive
    · change (HashMap.insert _ _ _).contains _ = true
      rw [HashMap.contains, HashMap.get?_insert_self]
      rfl

theorem Chained.act (hs : s.Chained) {torrent : TorrentActor H} {action : TimerAction} {env : TimerEnv}
    (h : action.Follows s.torrent.state torrent.state) : (s.act torrent action env).Chained := by
  cases action with
  | schedule => exact hs.toSingle.schedule h
  | keep =>
      have hearly := hs.fireEarly env.early
      have hsame := fireEarly_torrent env.early s
      unfold TimedTorrent.act
      dsimp only
      generalize s.fireEarly env.early = u at hearly hsame
      rcases h with h | ⟨hidle, hne⟩
      · rw [← hsame] at h
        exact ⟨⟨hearly.held, fun hpaused => hearly.quiet (h ▸ hpaused)⟩, fun hactive => hearly.going (h ▸ hactive)⟩
      · refine ⟨⟨hearly.held, fun hpaused => absurd hpaused hne⟩, fun hactive => ?_⟩
        cases hidle.symm.trans hactive
  | abort =>
      have hearly := hs.fireEarly env.early
      unfold TimedTorrent.act
      dsimp only
      generalize s.fireEarly env.early = u at hearly
      have hnone := live_abortNextRechoke (s := { u with torrent := torrent }) hearly.held
      have htorrent := abortNextRechoke_torrent { u with torrent := torrent }
      refine ⟨⟨fun timer hlive => ?_, fun _ => hnone⟩, fun hactive => ?_⟩
      · cases (hnone timer).symm.trans hlive
      · rw [htorrent] at hactive
        cases hactive.symm.trans h

theorem Chained.check (hs : s.Chained) (checked : Bool) :
    ({ s with checked := checked } : TimedTorrent H).Chained :=
  ⟨⟨hs.held, hs.quiet⟩, hs.going⟩

variable [DecidableEq H] {c : Codec H}

/-- The inputs of a run in which nothing is configured anew and no snapshot restored. -/
def Plain : TimedInput c → Prop
  | .message m _ => ¬m.Reconfigures
  | _ => True

theorem Chained.apply (hs : s.Chained) {i : TimedInput c} (hi : Plain i) : (s.apply i).Chained := by
  cases i with
  | fire timer => exact hs.fire timer
  | check env timer => exact (hs.act (TorrentActor.follows_next env s.torrent)).check true
  | message m timer => exact (hs.act (TorrentActor.follows_handle s.torrent hi)).check false
  | rechoke env timer =>
      have hless : ({ s with waiting := s.waiting - 1 } : TimedTorrent H).Single := ⟨hs.held, hs.quiet⟩
      exact (hless.schedule (TorrentActor.follows_handle (m := (.rechoke env : TorrentMessage c)) s.torrent
        id)).check false

theorem chained_of_reach {G : TimedTorrent H → TimedInput c → Prop} (hG : ∀ s i, G s i → Plain i)
    (h : (timedSystem c).Reach G s) : s.Chained := by
  refine h.invariant (I := Chained) ?_ ?_
  · rintro t ⟨⟨args, disk, hstart⟩, hinit⟩
    obtain ⟨hash, -, hstate⟩ := Option.map_eq_some_iff.1 hstart
    have hidle : t.torrent.state.isTransferActive = false := by
      rw [← hstate]
      dsimp only
      split <;> rfl
    rw [hinit]
    exact ⟨⟨nofun, fun _ _ => rfl⟩, fun hactive => nomatch hidle.symm.trans hactive⟩
  · rintro t i u ht hi ⟨-, rfl⟩
    exact ht.apply (hG t i hi)

omit [DecidableEq H] in
theorem act_torrent (torrent : TorrentActor H) (action : TimerAction) (env : TimerEnv)
    (s : TimedTorrent H) : (s.act torrent action env).torrent = torrent := by
  cases action with
  | keep => rfl
  | abort => exact abortNextRechoke_torrent _
  | schedule =>
      unfold act
      dsimp only
      unfold scheduleNextRechoke
      split
      · rfl
      · exact abortNextRechoke_torrent _

/-- What the torrent has come to: a state of its own runs, or one after the check. -/
def Runs (c : Codec H) (s : TimedTorrent H) : Prop :=
  if s.checked then ∃ t env, (torrentSystem c).Reach (fun _ _ => True) t ∧ s.torrent = t.next env
  else (torrentSystem c).Reach (fun _ _ => True) s.torrent

/-- A message after the check makes a round. -/
theorem Runs.handle (hs : s.Runs c) (hchecked : s.checked = true) {m : TorrentMessage c}
    (hm : s.torrent.RestoresOwn m) : (torrentSystem c).Reach (fun _ _ => True) (s.torrent.handle m) := by
  rw [Runs, if_pos hchecked] at hs
  obtain ⟨t, env, ht, heq⟩ := hs
  have hown : t.RestoresOwn m := by
    have hmetainfo := (TorrentActor.sameData_next env t).metainfo
    rw [heq] at hm
    cases m with
    | restoreSnapshot v => exact hm.trans hmetainfo
    | _ => trivial
  have hround := ht.step (i := ⟨env, m⟩) trivial ⟨hown, rfl⟩
  rw [TorrentActor.step, ← heq] at hround
  exact hround

/-- **The torrent runs as it does without timers.** -/
theorem torrent_of_reach {G : TimedTorrent H → TimedInput c → Prop} (h : (timedSystem c).Reach G s) :
    s.Runs c := by
  refine h.invariant (I := Runs c) ?_ ?_
  · rintro t ⟨hinit, heq⟩
    rw [heq]
    exact .init hinit
  · rintro t i u ht - ⟨hadmits, rfl⟩
    cases i with
    | fire timer =>
        change (t.fire timer).Runs c
        unfold TimedTorrent.fire
        split
        · exact ht
        · exact ht
    | check env timer =>
        change t.checked = false at hadmits
        rw [Runs, if_neg (by rw [hadmits]; exact Bool.false_ne_true)] at ht
        exact ⟨t.torrent, env, ht, act_torrent ..⟩
    | message m timer =>
        change (torrentSystem c).Reach _ (t.act _ _ timer).torrent
        rw [act_torrent]
        exact ht.handle hadmits.1 hadmits.2
    | rechoke env timer =>
        change (torrentSystem c).Reach _ (TimedTorrent.act _ _ timer _).torrent
        rw [act_torrent]
        exact ht.handle hadmits.1 trivial

end TimedTorrent

/-- **The chain of rechokes neither ends nor multiplies.**  Whatever the order of messages and timers, and
whenever the scheduler fails: no timer is live but the one that is held; while the torrent transfers, that
one is live or its message waits in the mailbox; and none is live while it is paused. -/
theorem rechoke_chain {H : Type} [DecidableEq H] {c : Codec H} {s : TimedTorrent H}
    (h : (timedSystem c).Reach (fun _ i => TimedTorrent.Plain i) s) :
    (∀ timer, s.live.contains timer = true → s.nextRechoke = some timer) ∧
    (s.torrent.state = .downloading ∨ s.torrent.state = .seeding →
      (∃ timer, s.nextRechoke = some timer ∧ s.live.contains timer = true) ∨ 0 < s.waiting) ∧
    (s.torrent.state = .paused → ∀ timer, s.live.contains timer = false) := by
  have hchain := TimedTorrent.chained_of_reach (fun _ _ hi => hi) h
  refine ⟨hchain.held, ?_, hchain.quiet⟩
  rintro (hstate | hstate)
  · exact hchain.going (by rw [hstate]; rfl)
  · exact hchain.going (by rw [hstate]; rfl)

namespace Sample

/-- The sample torrent with its timers. -/
def timed : TimedTorrent Bytes := ⟨fromFile .inFile, false, none, ∅, 0, 0⟩

def timerEnv : TimerEnv := ⟨false, true⟩

/-- The torrent starts, and its timer fires. -/
def started : List (TimedInput codec) :=
  [.check startEnv timerEnv, .message (.peerConnected (some peer) 0) timerEnv,
    .check startEnv timerEnv, .message (.setSufficientPeers 1 startEnv) timerEnv,
    .check startEnv timerEnv, .fire 0]

/-- It is paused and started again, while the scheduler fails. -/
def restarted : List (TimedInput codec) :=
  [.message (.setState .paused startEnv broadcastEnv) timerEnv, .check startEnv timerEnv,
    .message (.setState .downloading startEnv broadcastEnv) ⟨false, false⟩, .check startEnv timerEnv]

theorem reach_started :
    (timedSystem codec).Reach (fun _ i => TimedTorrent.Plain i) (started.foldl TimedTorrent.apply timed) :=
  System.Reach.steps (.init ⟨init_fromFile .inFile, rfl⟩)
    ⟨⟨trivial, rfl, rfl⟩, ⟨id, ⟨rfl, trivial⟩, rfl⟩, ⟨trivial, rfl, rfl⟩, ⟨id, ⟨rfl, trivial⟩, rfl⟩,
      ⟨trivial, rfl, rfl⟩, ⟨trivial, trivial, rfl⟩, trivial⟩

/-- The torrent when it has been started again. -/
def timedAgain : TimedTorrent Bytes := restarted.foldl TimedTorrent.apply (started.foldl TimedTorrent.apply timed)

theorem reach_timedAgain : (timedSystem codec).Reach (fun _ i => TimedTorrent.Plain i) timedAgain := by
  have hchecked : (started.foldl TimedTorrent.apply timed).checked = true := by decide +kernel
  exact reach_started.steps
    ⟨⟨id, ⟨hchecked, trivial⟩, rfl⟩, ⟨trivial, rfl, rfl⟩, ⟨id, ⟨rfl, trivial⟩, rfl⟩, ⟨trivial, rfl, rfl⟩, trivial⟩

end Sample

/-- The first timer has fired and its rechoke waits; the second one is live. -/
theorem rechoke_chain_sample :
    Sample.timedAgain.waiting = 1 ∧ Sample.timedAgain.nextRechoke = some 1 ∧
      Sample.timedAgain.live.get? 1 = some .fallback ∧
      ∀ timer, Sample.timedAgain.live.contains timer = true → timer = 1 := by
  have hheld : Sample.timedAgain.nextRechoke = some 1 := by decide +kernel
  refine ⟨by decide +kernel, hheld, by decide +kernel, ?_⟩
  intro timer hlive
  have hsame := (rechoke_chain Sample.reach_timedAgain).1 timer hlive
  exact Option.some_inj.1 (hsame.symm.trans hheld)

end Tortillas
