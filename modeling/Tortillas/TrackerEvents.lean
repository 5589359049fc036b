/-
**Which announces carry events.**

The torrent announces an event when it becomes active, when its download is complete and when it
stops, and each announce is to carry the event it is made for.  That is so as long as the three
messages of an event reach a tracker one behind the other, and no download is completed a second
time.  A tracker's mailbox then is a sequence of such triples, and of announces for other reasons
between them.

Main definitions:

* `EventPhase`, `EventPhase.run` — where a tracker is in the announcement of an event;
* `TrackerActor.ReportsOnce` — announces carry the event they are made for, and there are no more
  of a kind than there were reasons for;
* `FinishesAgain`, `InOrder` — the steps after which this may fail, and those that keep it.

Main results:

* `TorrentActor.accounts_round` — the events of a round are those of its transitions;
* `Orderly.next`, `Orderly.post` — what trackers and timers do to a mailbox;
* `events_reported_once` — **in every run without interference each transition is announced at most
  once to each tracker, and other announces carry no event**.
-/

import Tortillas.TrackerActor

set_option relaxedAutoImplicit false
set_option autoImplicit false

namespace Tortillas

/-! ### The events of a round -/

namespace TorrentActor

variable {H : Type} {s t : TorrentActor H}

/-- The events announced between two states have each a transition of their own. -/
structure Accounts (s t : TorrentActor H) (events : List Event) : Prop where
  started : events.count .started ≤ enters s t
  completed : events.count .completed ≤ completes s t
  stopped : events.count .stopped ≤ stops s t
  announced : Event.empty ∉ events

theorem accounts_nil (s t : TorrentActor H) : Accounts s t [] :=
  ⟨Nat.zero_le _, Nat.zero_le _, Nat.zero_le _, List.not_mem_nil⟩

theorem accounts_started (hs : s.state.isTransferActive = false)
    (ht : t.state.isTransferActive = true) : Accounts s t [.started] := by
  refine ⟨?_, Nat.zero_le _, Nat.zero_le _, by decide⟩
  rw [enters, if_pos ⟨hs, ht⟩]
  exact le_rfl

theorem accounts_completed (hs : s.isFull = false) (ht : t.isFull = true) :
    Accounts s t [.completed] := by
  refine ⟨Nat.zero_le _, ?_, Nat.zero_le _, by decide⟩
  rw [completes, if_pos ⟨hs, ht⟩]
  exact le_rfl

theorem accounts_stopped (hs : s.state.isTransferActive = true)
    (ht : t.state.isTransferActive = false) : Accounts s t [.stopped] := by
  refine ⟨Nat.zero_le _, Nat.zero_le _, ?_, by decide⟩
  rw [stops, if_pos ⟨hs, ht⟩]
  exact le_rfl

/-- Only the state and the bits before matter. -/
theorem Accounts.of_eq {s' : TorrentActor H} {events : List Event} (h : Accounts s' t events)
    (hstate : s'.state = s.state) (hbits : s'.bitfield = s.bitfield) : Accounts s t events := by
  have henters : enters s' t = enters s t := by
    rw [enters, enters, hstate]
  have hcompletes : completes s' t = completes s t := by
    rw [completes, completes, isFull, isFull, hbits]
    rfl
  have hstops : stops s' t = stops s t := by
    rw [stops, stops, hstate]
  exact ⟨henters ▸ h.started, hcompletes ▸ h.completed, hstops ▸ h.stopped, h.announced⟩

theorem isTransferActive_of_canStart {state : TorrentState} (h : state.canStart = true) :
    state.isTransferActive = false := by
  cases state with
  | downloading => cases h
  | seeding => cases h
  | _ => rfl

/-- Starting announces that the torrent has become active. -/
theorem accounts_start (env : StartEnv) (s : TorrentActor H) :
    Accounts s (s.start env) (s.startEvents env) := by
  unfold startEvents start
  split
  · exact accounts_nil _ _
  · rename_i hcan
    cases hinfo : s.infoDict with
    | none => exact accounts_nil _ _
    | some info =>
        dsimp only
        cases hpre : preStart info env.preStart s.pieceManager with
        | none => exact accounts_nil _ _
        | some manager =>
            dsimp only
            have hreq := (requesting_fillInitialWindows env.fillAll
              (s.sendReadyHooks.enterTransfer manager)).trans
              (requesting_rechokePeers env.rechoke _)
            refine accounts_started (isTransferActive_of_canStart (by simpa using hcan)) ?_
            rw [hreq.state]
            change TorrentState.isTransferActive
              (if s.isFull = true then .seeding else .downloading) = true
            split
            · rfl
            · rfl

theorem accounts_autostartCheck (env : StartEnv) (s : TorrentActor H) :
    Accounts s (s.autostartCheck env) (s.autostartEvents env) := by
  unfold autostartEvents autostartCheck
  split
  · exact accounts_nil _ _
  · split
    · have hstart := accounts_start env { s with pendingStart := true }
      exact ⟨hstart.started, hstart.completed, hstart.stopped, hstart.announced⟩
    · exact accounts_nil _ _

/-- Stopping announces that the torrent was active. -/
theorem accounts_stopTransfer (env : BroadcastEnv) (s : TorrentActor H) :
    Accounts s (s.stopTransfer env) s.stopEvents := by
  unfold stopEvents stopTransfer
  split
  · exact accounts_nil _ _
  · split
    · rename_i hactive
      exact accounts_stopped hactive rfl
    · exact accounts_nil _ _

/-! ### Blocks -/

variable [DecidableEq H] {c : Codec H}

/-- A block that completes its piece announces that the download is complete exactly if it finishes
the download. -/
theorem pieceEvents_cases {index offset n : ℕ} {block : Bytes} {env : BlockEnv} {dict : Info H}
    {v : TorrentActor H} (ha : s.Accepts index offset block.length dict n)
    (hw : (s.writeBlockToStorage c index offset block env.write).2 = true)
    (hrow : ((s.writeBlockToStorage c index offset block env.write).1.recordBlock index offset
      n).pieceScheduler.isPieceComplete index = true)
    (hv : v = { (s.writeBlockToStorage c index offset block env.write).1.recordBlock index offset n
      with outbox := v.outbox }) :
    v.pieceEvents c index env = [] ∨
      v.pieceEvents c index env = [.completed] ∧ s.FinishesDownload c index offset block env dict n := by
  have hwrite := writeBlockToStorage_eq c index offset block env.write s
  have hremoved : v.mapScheduler (·.removePieceBlocks index) =
      { ((s.writeBlockToStorage c index offset block env.write).1.recordBlock index offset
        n).mapScheduler (·.removePieceBlocks index) with outbox := v.outbox } := by
    rw [hv]
    rfl
  rw [pieceEvents]
  split
  · exact .inl rfl
  · rename_i hc
    have hcommit := validateAndCommitPiece_eq c index env (v.mapScheduler (·.removePieceBlocks index))
    have hcommitted : ((((s.writeBlockToStorage c index offset block env.write).1.recordBlock index
        offset n).mapScheduler (·.removePieceBlocks index)).validateAndCommitPiece c index
          env).2 = true := by
      rw [hremoved, validateAndCommitPiece_outbox] at hc
      simpa using hc
    generalize ((v.mapScheduler (·.removePieceBlocks index)).validateAndCommitPiece c index
      env).1 = u at hcommit ⊢
    have hsame := sameData_broadcastToPeersBestEffort (.have index) env.broadcast
      (u.completePiece index)
    have hinfo : ((u.completePiece index).broadcastToPeersBestEffort (.have index)
        env.broadcast).infoDict = some dict := by
      rw [hsame.infoDict, ← ha.info, hcommit, hremoved, hwrite]
      rfl
    have hpieces := recordBlock_pieces (s.writeBlockToStorage c index offset block env.write).1
      index offset n
    have hnext : ((u.completePiece index).broadcastToPeersBestEffort (.have index)
        env.broadcast).pieceScheduler.nextPiece =
          (s.pieceScheduler.markPieceComplete index).nextPiece := by
      rw [hwrite] at hpieces
      rw [hsame.nextPiece, hcommit, hremoved, hwrite]
      exact nextPiece_markPieceComplete hpieces.1 hpieces.2 index
    rw [continueEvents, hinfo, hnext]
    split
    · rename_i hall
      exact .inr ⟨rfl, ha, hw, hrow, hcommitted, hall⟩
    · exact .inl rfl

/-- A block announces nothing, or that the download is complete, and then it finishes the
download. -/
theorem incomingEvents_cases (p : PeerId) (index offset : ℕ) (block : Bytes) (env : BlockEnv)
    (s : TorrentActor H) :
    s.incomingEvents c p index offset block env = [] ∨
      s.incomingEvents c p index offset block env = [.completed] ∧
        ∃ dict n, s.FinishesDownload c index offset block env dict n := by
  rw [incomingEvents]
  cases hinfo : s.infoDict with
  | none => exact .inl rfl
  | some dict =>
      dsimp only
      cases hcheck : checkBlock dict index offset block.length with
      | none => exact .inl rfl
      | some n =>
          dsimp only
          split
          · exact .inl rfl
          · rename_i hfresh
            split
            · exact .inl rfl
            · rename_i hw
              have ha : s.Accepts index offset block.length dict n :=
                ⟨hinfo, hcheck, by simpa using hfresh⟩
              rw [acceptEvents]
              generalize hassigned :
                ((s.writeBlockToStorage c index offset block env.write).1.pieceScheduler.markBlockComplete
                  index (offset / blockSize) n).2 = assigned
              have heq := recorded_eq p assigned index offset block.length n env.cancelSent
                (s.writeBlockToStorage c index offset block env.write).1
              generalize TorrentActor.cancelAssigned p assigned index offset block.length
                env.cancelSent _ = recorded at heq ⊢
              dsimp only at heq
              split
              · rename_i hrow
                have hv : recorded.emit (.pieceReceived index) =
                    { (s.writeBlockToStorage c index offset block env.write).1.recordBlock index
                        offset n with outbox := (recorded.emit (.pieceReceived index)).outbox } := by
                  rw [heq]
                  rfl
                rw [heq] at hrow
                rcases pieceEvents_cases ha (by simpa using hw) hrow hv with hnil | ⟨hone, hfinishes⟩
                · exact .inl hnil
                · exact .inr ⟨hone, dict, n, hfinishes⟩
              · exact .inl rfl

/-- The download is complete after a block that finishes it. -/
theorem isFull_of_finishesDownload (hs : s.SeedsFull) (hb : s.BitsInv) (p : PeerId)
    {index offset : ℕ} {block : Bytes} {env : BlockEnv}
    (h : ∃ dict n, s.FinishesDownload c index offset block env dict n) :
    (s.handleIncomingPiece c p index offset block env).isFull = true := by
  rcases state_handleIncomingPiece (c := c) p index offset block env s with ⟨-, hseed⟩ | ⟨hnot, -⟩
  · exact (hs.handleIncomingPiece hb p index offset block env hseed).bits
  · exact absurd h hnot

/-! ### Messages and rounds -/

/-- A block completes a download that was complete before. -/
def FinishesAgain (s : TorrentActor H) : TorrentMessage c → Prop
  | .incomingPiece _ index offset block env =>
      s.isFull = true ∧ ∃ dict n, s.FinishesDownload c index offset block env dict n
  | _ => False

/-- **The events of a message are those of its transitions**, unless it completes the download
again. -/
theorem accounts_handle (hs : s.SeedsFull) (hb : s.BitsInv) (m : TorrentMessage c)
    (hagain : ¬ s.FinishesAgain m) : Accounts s (s.handle m) (s.messageEvents m) := by
  cases m with
  | incomingPiece p index offset block env =>
      change Accounts s (s.handleIncomingPiece c p index offset block env)
        (s.incomingEvents c p index offset block env)
      rcases incomingEvents_cases p index offset block env s with hnil | ⟨hone, hfinishes⟩
      · rw [hnil]
        exact accounts_nil _ _
      · rw [hone]
        refine accounts_completed ?_ (isFull_of_finishesDownload hs hb p hfinishes)
        rw [← Bool.not_eq_true]
        exact fun hfull => hagain ⟨hfull, hfinishes⟩
  | setState state start stop =>
      cases state with
      | downloading => exact accounts_start start s
      | seeding => exact accounts_start start s
      | paused => exact accounts_stopTransfer stop s
      | _ => exact accounts_nil _ _
  | setAutoStart auto env =>
      change Accounts s (if s.pendingStart then _ else _) (if s.pendingStart then _ else _)
      split
      · exact accounts_nil _ _
      · exact (accounts_autostartCheck env { s with autostart := auto }).of_eq rfl rfl
  | setSufficientPeers peers env =>
      change Accounts s (if s.pendingStart then _ else _) (if s.pendingStart then _ else _)
      split
      · exact accounts_nil _ _
      · exact (accounts_autostartCheck env { s with sufficientPeers := peers }).of_eq rfl rfl
  | readyHook env =>
      change Accounts s (s.readyHookMessage env) _
      rw [readyHookMessage, messageEvents]
      split
      · exact accounts_nil _ _
      · split
        · exact accounts_nil _ _
        · exact (accounts_autostartCheck env { s with readyHook := s.readyHook + 1 }).of_eq rfl rfl
  | _ => exact accounts_nil _ _

omit [DecidableEq H] in
theorem accounts_next (env : StartEnv) (s : TorrentActor H) :
    Accounts s (s.next env) (s.nextEvents env) := by
  unfold nextEvents TorrentActor.next
  split
  · exact accounts_nil _ _
  · exact (accounts_autostartCheck env { s with outbox := [] }).of_eq rfl rfl

/-- **The events of a round are those of its transitions.** -/
theorem accounts_round (hs : s.SeedsFull) (hb : s.BitsInv) (i : Input c)
    (hagain : ¬ (s.next i.check).FinishesAgain i.message) :
    (s.roundEvents i).count .started ≤
      enters s (s.next i.check) + enters (s.next i.check) (s.step i) ∧
    (s.roundEvents i).count .completed ≤
      completes s (s.next i.check) + completes (s.next i.check) (s.step i) ∧
    (s.roundEvents i).count .stopped ≤
      stops s (s.next i.check) + stops (s.next i.check) (s.step i) ∧
    Event.empty ∉ s.roundEvents i := by
  have hcheck := accounts_next i.check s
  have hb' : (s.next i.check).BitsInv := (sameData_next i.check s).toBits.toPieces.bitsInv hb
  have hhandle := accounts_handle (hs.next i.check) hb' i.message hagain
  rw [roundEvents, List.count_append, List.count_append, List.count_append, List.mem_append, not_or]
  exact ⟨Nat.add_le_add hcheck.started hhandle.started,
    Nat.add_le_add hcheck.completed hhandle.completed,
    Nat.add_le_add hcheck.stopped hhandle.stopped, hcheck.announced, hhandle.announced⟩

end TorrentActor

/-! ### Mailboxes -/

/-- Where a tracker is: between events, with an event set, or with an event announced. -/
inductive EventPhase
  | idle
  | armed (event : Event)
  | spent (event : Event)

namespace EventPhase

/-- The event that an announce carries. -/
def event : EventPhase → Event
  | idle => .empty
  | armed event => event
  | spent event => event

/-- The message that may come next, and what it does. -/
def advance : EventPhase → TrackerMessage → Option EventPhase
  | idle, .announce .other => some idle
  | idle, .update event => if event = .empty then none else some (armed event)
  | armed event, .announce (.lifecycle event') => if event' = event then some (spent event) else none
  | spent _, .update .empty => some idle
  | _, _ => none

/-- The messages of a mailbox, one after the other. -/
def run : EventPhase → List TrackerMessage → Option EventPhase
  | φ, [] => some φ
  | φ, m :: ms => (φ.advance m).bind fun ψ => ψ.run ms

theorem run_append (φ : EventPhase) (ms ns : List TrackerMessage) :
    φ.run (ms ++ ns) = (φ.run ms).bind fun ψ => ψ.run ns := by
  induction ms generalizing φ with
  | nil => rfl
  | cons m ms ih =>
      rw [List.cons_append, run, run]
      cases φ.advance m with
      | none => rfl
      | some ψ => exact ih ψ

/-- The messages of an event lead back to where they began. -/
theorem run_trackerMessages {event : Event} (h : event ≠ .empty) :
    idle.run (trackerMessages event) = some idle := by
  simp [trackerMessages, run, advance, h]

theorem run_flatMap_trackerMessages {events : List Event} (h : Event.empty ∉ events) :
    idle.run (events.flatMap trackerMessages) = some idle := by
  induction events with
  | nil => rfl
  | cons event events ih =>
      rw [List.mem_cons, not_or] at h
      rw [List.flatMap_cons, run_append, run_trackerMessages (Ne.symm h.1)]
      exact ih h.2

/-- Only between events can the next message of the torrent begin an event, or none be left. -/
theorem eq_idle_of_run {φ : EventPhase} {ms : List TrackerMessage} (h : φ.run ms = some idle)
    (hclear : ms.head? ≠ some (.update .empty))
    (hannounce : ∀ event, ms.head? ≠ some (.announce (.lifecycle event))) : φ = idle := by
  cases φ with
  | idle => rfl
  | armed event =>
      cases ms with
      | nil => cases h
      | cons m ms =>
          cases m with
          | update event' => cases h
          | announce origin =>
              cases origin with
              | lifecycle event' => exact absurd rfl (hannounce event')
              | other => cases h
              | farewell => cases h
  | spent event =>
      cases ms with
      | nil => cases h
      | cons m ms =>
          cases m with
          | announce origin => cases h
          | update event' =>
              cases event' with
              | empty => exact absurd rfl hclear
              | started => cases h
              | completed => cases h
              | stopped => cases h

end EventPhase

/-- The event that an announce ought to carry. -/
def Origin.event : Origin → Event
  | lifecycle event => event
  | other => .empty
  | farewell => .stopped

/-- An announce is made where it may be, so that it carries what it ought to. -/
theorem EventPhase.event_of_advance {φ ψ : EventPhase} {origin : Origin}
    (h : φ.advance (.announce origin) = some ψ) :
    φ.event = origin.event ∧ ψ.event = φ.event := by
  cases φ with
  | idle =>
      cases origin with
      | other =>
          cases h
          exact ⟨rfl, rfl⟩
      | lifecycle event => cases h
      | farewell => cases h
  | armed event =>
      cases origin with
      | lifecycle event' =>
          rw [advance] at h
          split at h
          · rename_i heq
            cases h
            exact ⟨heq.symm, rfl⟩
          · cases h
      | other => cases h
      | farewell => cases h
  | spent event => cases h

/-- A message that sets or clears the event takes it to that of the next phase. -/
theorem EventPhase.event_of_advance_update {φ ψ : EventPhase} {event : Event}
    (h : φ.advance (.update event) = some ψ) : ψ.event = event := by
  cases φ with
  | idle =>
      rw [advance] at h
      split at h
      · cases h
      · cases h
        rfl
  | armed event' => cases h
  | spent event' =>
      cases event with
      | empty =>
          cases h
          rfl
      | started => cases h
      | completed => cases h
      | stopped => cases h

/-! ### One tracker -/

/-- What is in the mailbox, and then what the torrent has still to send, announces events one behind
the other. -/
def Orderly (t : TrackerActor) (outgoing : List TrackerMessage) : Prop :=
  ∃ φ ψ : EventPhase, t.event = φ.event ∧ φ.run t.mailbox = some ψ ∧ ψ.run outgoing = some .idle

/-- The announces of an event that have been made, are in the mailbox, or are still to be sent. -/
def tally (event : Event) (t : TrackerActor) (outgoing : List TrackerMessage) : ℕ :=
  (t.announced.map Prod.fst).count (.lifecycle event) +
    t.mailbox.count (.announce (.lifecycle event)) +
    outgoing.count (.announce (.lifecycle event))

/-- What holds of a tracker in every run without interference, when there were so many transitions
for each event. -/
structure TrackerInv (transitions : Event → ℕ) (t : TrackerActor)
    (outgoing : List TrackerMessage) : Prop where
  orderly : t.alive = true → Orderly t outgoing
  carried : ∀ a ∈ t.announced, a.2 = a.1.event
  tallied : ∀ event, event ≠ .empty → tally event t outgoing ≤ transitions event
  farewell : (t.announced.map Prod.fst).count .farewell ≤ if t.alive then 0 else 1

namespace TrackerInv

variable {transitions : Event → ℕ} {t : TrackerActor} {outgoing : List TrackerMessage}

theorem new (transitions : Event → ℕ) : TrackerInv transitions .new [] where
  orderly _ := ⟨.idle, .idle, rfl, rfl, rfl⟩
  carried _ h := absurd h List.not_mem_nil
  tallied _ _ := Nat.zero_le _
  farewell := Nat.zero_le _

/-- **A tracker takes a message.** -/
theorem next (h : TrackerInv transitions t outgoing) : TrackerInv transitions t.next outgoing := by
  unfold TrackerActor.next
  split
  · rename_i halive
    obtain ⟨φ, ψ, hevent, hmailbox, houtgoing⟩ := h.orderly halive
    cases hms : t.mailbox with
    | nil => exact h
    | cons m ms =>
        rw [hms, EventPhase.run] at hmailbox
        obtain ⟨χ, hadvance, hrest⟩ := Option.bind_eq_some_iff.1 hmailbox
        cases m with
        | update event =>
            refine ⟨fun _ => ⟨χ, ψ, ?_, hrest, houtgoing⟩, h.carried, ?_, h.farewell⟩
            · exact (EventPhase.event_of_advance_update hadvance).symm
            · intro event' hne
              have htally := h.tallied event' hne
              rw [tally, hms, List.count_cons] at htally
              exact (Nat.add_le_add_right (Nat.add_le_add_left (Nat.le_add_right _ _) _) _).trans
                htally
        | announce origin =>
            obtain ⟨hcarried, hsame⟩ := EventPhase.event_of_advance hadvance
            refine ⟨fun _ => ⟨χ, ψ, ?_, hrest, houtgoing⟩, ?_, ?_, ?_⟩
            · exact hevent.trans hsame.symm
            · intro a ha
              rcases List.mem_append.1 ha with ha | ha
              · exact h.carried a ha
              · rw [List.mem_singleton.1 ha]
                exact hevent.trans hcarried
            · intro event' hne
              have htally := h.tallied event' hne
              rw [tally, hms, List.count_cons] at htally
              rw [tally]
              change ((t.announced ++ [(origin, t.event)]).map Prod.fst).count (.lifecycle event') +
                ms.count (.announce (.lifecycle event')) + _ ≤ _
              rw [List.map_append, List.count_append, List.map_singleton, List.count_singleton]
              simp only [beq_iff_eq, TrackerMessage.announce.injEq] at htally ⊢
              omega
            · change ((t.announced ++ [(origin, t.event)]).map Prod.fst).count .farewell ≤ _
              have hne : origin ≠ .farewell := by
                rintro rfl
                cases φ with
                | idle => cases hadvance
                | armed event => cases hadvance
                | spent event => cases hadvance
              have hfarewell := h.farewell
              rw [List.map_append, List.count_append, List.map_singleton, List.count_singleton]
              simp only [beq_iff_eq, hne, if_false, Nat.add_zero]
              exact hfarewell
  · exact h

/-- **An announce for another reason gets into the mailbox** while the torrent is not in the middle
of an event. -/
theorem post (h : TrackerInv transitions t outgoing)
    (hidle : ∀ ψ : EventPhase, ψ.run outgoing = some .idle → ψ = .idle) :
    TrackerInv transitions (t.post (.announce .other)) outgoing := by
  unfold TrackerActor.post
  split
  · rename_i halive
    obtain ⟨φ, ψ, hevent, hmailbox, houtgoing⟩ := h.orderly halive
    have hψ := hidle ψ houtgoing
    subst hψ
    refine ⟨fun _ => ⟨φ, .idle, hevent, ?_, houtgoing⟩, h.carried, ?_, h.farewell⟩
    · rw [EventPhase.run_append, hmailbox]
      rfl
    · intro event hne
      have htally := h.tallied event hne
      rw [tally] at htally ⊢
      rw [List.count_append, List.count_singleton]
      simpa using htally
  · exact h

/-- **The torrent's next message gets into the mailbox.** -/
theorem send {m : TrackerMessage} (h : TrackerInv transitions t (m :: outgoing)) :
    TrackerInv transitions (t.post m) outgoing := by
  unfold TrackerActor.post
  split
  · rename_i halive
    obtain ⟨φ, ψ, hevent, hmailbox, houtgoing⟩ := h.orderly halive
    rw [EventPhase.run] at houtgoing
    obtain ⟨χ, hadvance, hrest⟩ := Option.bind_eq_some_iff.1 houtgoing
    refine ⟨fun _ => ⟨φ, χ, hevent, ?_, hrest⟩, h.carried, ?_, h.farewell⟩
    · rw [EventPhase.run_append, hmailbox, Option.bind_some, EventPhase.run, hadvance]
      rfl
    · intro event hne
      have htally := h.tallied event hne
      rw [tally, List.count_cons] at htally
      rw [tally, List.count_append, List.count_singleton]
      dsimp only
      omega
  · rename_i hdead
    refine ⟨fun halive => absurd halive hdead, h.carried, ?_, h.farewell⟩
    intro event hne
    have htally := h.tallied event hne
    rw [tally, List.count_cons] at htally
    rw [tally]
    omega

/-- **The tracker stops.** -/
theorem onStop (h : TrackerInv transitions t outgoing) :
    TrackerInv transitions t.onStop outgoing := by
  unfold TrackerActor.onStop
  split
  · rename_i halive
    have hfarewell := h.farewell
    rw [halive] at hfarewell
    refine ⟨nofun, ?_, ?_, ?_⟩
    · intro a ha
      rcases List.mem_append.1 ha with ha | ha
      · exact h.carried a ha
      · rw [List.mem_singleton.1 ha]
        rfl
    · intro event hne
      have htally := h.tallied event hne
      rw [tally] at htally ⊢
      change ((t.announced ++ [(Origin.farewell, Event.stopped)]).map Prod.fst).count
        (.lifecycle event) + t.mailbox.count (.announce (.lifecycle event)) + _ ≤ _
      rw [List.map_append, List.count_append, List.map_singleton, List.count_singleton]
      simpa using htally
    · change ((t.announced ++ [(Origin.farewell, Event.stopped)]).map Prod.fst).count .farewell ≤ 1
      rw [List.map_append, List.count_append, List.map_singleton, List.count_singleton]
      simp only [if_true] at hfarewell
      simp
      omega
  · exact h

/-- **The torrent announces the events of a round.** -/
theorem round {transitions' : Event → ℕ} {events : List Event}
    (h : TrackerInv transitions t []) (hempty : Event.empty ∉ events)
    (hle : ∀ event, event ≠ .empty → transitions event + events.count event ≤ transitions' event) :
    TrackerInv transitions' t (events.flatMap trackerMessages) := by
  have hcount : ∀ event, event ≠ .empty →
      (events.flatMap trackerMessages).count (.announce (.lifecycle event)) =
        events.count event := by
    intro event hne
    clear hempty hle
    induction events with
    | nil => rfl
    | cons e events ih =>
        rw [List.flatMap_cons, List.count_append, ih, List.count_cons]
        simp [trackerMessages, List.count_cons, Nat.add_comm]
  refine ⟨?_, h.carried, ?_, h.farewell⟩
  · intro halive
    obtain ⟨φ, ψ, hevent, hmailbox, houtgoing⟩ := h.orderly halive
    cases houtgoing
    exact ⟨φ, .idle, hevent, hmailbox, EventPhase.run_flatMap_trackerMessages hempty⟩
  · intro event hne
    have htally := h.tallied event hne
    have hmore := hle event hne
    rw [tally, List.count_nil] at htally
    rw [tally, hcount event hne]
    omega

end TrackerInv

/-! ### All trackers -/

namespace TrackedTorrent

variable {H : Type} {s : TrackedTorrent H}

/-- How many transitions there were for each event. -/
def transitions (s : TrackedTorrent H) : Event → ℕ
  | .empty => 0
  | .started => s.entered
  | .completed => s.completed
  | .stopped => s.stopped

/-- What holds of all trackers. -/
def TrackersInv (s : TrackedTorrent H) : Prop :=
  ∀ ref t, s.trackers ref = some t → TrackerInv s.transitions t (s.outgoing ref)

/-- A change of one tracker. -/
theorem TrackersInv.mapTracker (h : s.TrackersInv) {ref : ℕ} {f : TrackerActor → TrackerActor}
    (hf : ∀ t, TrackerInv s.transitions t (s.outgoing ref) →
      TrackerInv s.transitions (f t) (s.outgoing ref)) : (s.mapTracker ref f).TrackersInv := by
  intro r t ht
  change (if r = ref then (s.trackers r).map f else s.trackers r) = some t at ht
  change TrackerInv s.transitions t (s.outgoing r)
  split at ht
  · rename_i heq
    subst heq
    obtain ⟨t', ht', rfl⟩ := Option.map_eq_some_iff.1 ht
    exact hf t' (h r t' ht')
  · exact h r t ht

theorem TrackersInv.send (h : s.TrackersInv) (ref : ℕ) : (s.send ref).TrackersInv := by
  unfold TrackedTorrent.send
  cases hout : s.outgoing ref with
  | nil => exact h
  | cons m ms =>
      intro r t ht
      change (if r = ref then (s.trackers r).map (TrackerActor.post m) else s.trackers r) =
        some t at ht
      change TrackerInv s.transitions t (if r = ref then ms else s.outgoing r)
      split at ht
      · rename_i heq
        subst heq
        obtain ⟨t', ht', rfl⟩ := Option.map_eq_some_iff.1 ht
        have hinv := h r t' ht'
        rw [hout] at hinv
        rw [if_pos rfl]
        exact hinv.send
      · rename_i hne
        rw [if_neg hne]
        exact h r t ht

theorem TrackersInv.addTracker (h : s.TrackersInv) (hidle : s.Idle) (ref : ℕ) :
    (s.addTracker ref).TrackersInv := by
  unfold TrackedTorrent.addTracker
  split
  · exact h
  · intro r t ht
    change (if r = ref then some TrackerActor.new else s.trackers r) = some t at ht
    change TrackerInv s.transitions t (s.outgoing r)
    split at ht
    · cases ht
      rw [hidle r]
      exact TrackerInv.new _
    · exact h r t ht

/-- What users ask for comes between the events of the torrent. -/
theorem TrackersInv.reannounce (h : s.TrackersInv) (hidle : s.Idle) (refs : List ℕ) :
    (refs.foldl (fun s ref => s.mapTracker ref (.post (.announce .other))) s).TrackersInv := by
  induction refs generalizing s with
  | nil => exact h
  | cons ref refs ih =>
      rw [List.foldl_cons]
      refine ih (h.mapTracker ?_) hidle
      intro t ht
      refine ht.post ?_
      rw [hidle ref]
      intro ψ hψ
      exact Option.some.inj hψ

variable [DecidableEq H] {c : Codec H}

/-- The steps of a run without interference: no scheduled announce gets between the messages of an
event, and no download is completed a second time. -/
def InOrder (s : TrackedTorrent H) : TrackedInput c → Prop
  | .timer ref => (s.outgoing ref).head? ≠ some (.update .empty) ∧
      ∀ event, (s.outgoing ref).head? ≠ some (.announce (.lifecycle event))
  | .round i => ¬ (s.torrent.next i.check).FinishesAgain i.message
  | _ => True

theorem TrackersInv.round (h : s.TrackersInv) (hidle : s.Idle) (hs : s.torrent.SeedsFull)
    (hb : s.torrent.BitsInv) (i : TorrentActor.Input c)
    (hagain : ¬ (s.torrent.next i.check).FinishesAgain i.message) : (s.round i).TrackersInv := by
  obtain ⟨hstarted, hcompleted, hstopped, hempty⟩ := TorrentActor.accounts_round hs hb i hagain
  intro ref t ht
  change s.trackers ref = some t at ht
  have hout : (s.round i).outgoing ref = (s.torrent.roundEvents i).flatMap trackerMessages := by
    change (if (s.trackers ref).isSome then _ else _) = _
    rw [ht]
    rfl
  have hinv := h ref t ht
  rw [hidle ref] at hinv
  rw [hout]
  refine hinv.round hempty ?_
  intro event hne
  cases event with
  | empty => exact absurd rfl hne
  | started => exact Nat.add_le_add_left hstarted _
  | completed => exact Nat.add_le_add_left hcompleted _
  | stopped => exact Nat.add_le_add_left hstopped _

/-- **One step keeps all trackers in order.** -/
theorem TrackersInv.apply (h : s.TrackersInv) (hs : s.torrent.SeedsFull) (hb : s.torrent.BitsInv)
    {i : TrackedInput c} (hadmits : s.Admits i) (horder : s.InOrder i) :
    (s.apply i).TrackersInv := by
  cases i with
  | round i => exact h.round hadmits.1 hs hb i horder
  | send ref => exact h.send ref
  | process ref => exact h.mapTracker fun t ht => ht.next
  | timer ref =>
      refine h.mapTracker fun t ht => ht.post ?_
      intro ψ hψ
      exact EventPhase.eq_idle_of_run hψ horder.1 horder.2
  | reannounce refs => exact h.reannounce hadmits refs
  | addTracker ref => exact h.addTracker hadmits ref
  | stopTracker ref => exact h.mapTracker fun t ht => ht.onStop

/-- Only a message changes the torrent, and how often it has completed a download. -/
theorem apply_eq {i : TrackedInput c} (hi : ∀ j, i ≠ .round j) (s : TrackedTorrent H) :
    (s.apply i).torrent = s.torrent ∧ (s.apply i).completed = s.completed := by
  cases i with
  | round j => exact absurd rfl (hi j)
  | send ref =>
      change (s.send ref).torrent = _ ∧ (s.send ref).completed = _
      unfold TrackedTorrent.send
      split <;> exact ⟨rfl, rfl⟩
  | process ref => exact ⟨rfl, rfl⟩
  | timer ref => exact ⟨rfl, rfl⟩
  | reannounce refs =>
      change (refs.foldl (fun s ref => s.mapTracker ref (.post (.announce .other))) s).torrent = _ ∧
        (refs.foldl (fun s ref => s.mapTracker ref (.post (.announce .other))) s).completed = _
      clear hi
      induction refs generalizing s with
      | nil => exact ⟨rfl, rfl⟩
      | cons ref refs ih => exact ih (s.mapTracker ref (.post (.announce .other)))
  | addTracker ref =>
      change (s.addTracker ref).torrent = _ ∧ (s.addTracker ref).completed = _
      unfold TrackedTorrent.addTracker
      split <;> exact ⟨rfl, rfl⟩
  | stopTracker ref => exact ⟨rfl, rfl⟩

/-- The torrent runs as it does without trackers. -/
theorem torrent_of_reach {G : TrackedTorrent H → TrackedInput c → Prop}
    (h : (trackedSystem c).Reach G s) : (torrentSystem c).Reach (fun _ _ => True) s.torrent := by
  refine h.invariant (I := fun s => (torrentSystem c).Reach (fun _ _ => True) s.torrent) ?_ ?_
  · intro s hinit
    exact .init hinit.1
  · rintro s i t hs - ⟨hadmits, rfl⟩
    by_cases hround : ∃ j, i = .round j
    · obtain ⟨j, rfl⟩ := hround
      exact .step hs trivial ⟨hadmits.2, rfl⟩
    · rw [(apply_eq (fun j hj => hround ⟨j, hj⟩) s).1]
      exact hs

/-- A download that has been completed loses a piece. -/
def Reopens (s : TrackedTorrent H) : TrackedInput c → Prop
  | .round i => 0 < s.completed ∧ s.torrent.isFull = true ∧ (s.torrent.step i).isFull = false
  | _ => False

/-- One download is completed once. -/
theorem completed_le_one (h : (trackedSystem c).Reach (fun s i => ¬ s.Reopens i) s) : s.completed ≤ 1 := by
  have hs : s.completed ≤ 1 ∧ (0 < s.completed → s.torrent.isFull = true) := by
    refine h.invariant (I := fun s => s.completed ≤ 1 ∧ (0 < s.completed → s.torrent.isFull = true)) ?_ ?_
    · rintro s ⟨-, heq⟩
      rw [heq]
      exact ⟨Nat.zero_le _, fun h => absurd h (Nat.lt_irrefl 0)⟩
    · rintro s i t ⟨hle, hfull⟩ hopen ⟨-, rfl⟩
      by_cases hround : ∃ j, i = .round j
      · obtain ⟨j, rfl⟩ := hround
        have hchecked : (s.torrent.next j.check).isFull = s.torrent.isFull := by
          rw [TorrentActor.isFull, TorrentActor.isFull, (TorrentActor.sameData_next j.check s.torrent).bitfield]
        change s.completed + (completes s.torrent (s.torrent.next j.check) +
            completes (s.torrent.next j.check) (s.torrent.step j)) ≤ 1 ∧
          (0 < s.completed + (completes s.torrent (s.torrent.next j.check) +
            completes (s.torrent.next j.check) (s.torrent.step j)) → (s.torrent.step j).isFull = true)
        rw [completes, completes, hchecked]
        rcases Nat.eq_zero_or_pos s.completed with hzero | hpos
        · rw [hzero]
          cases s.torrent.isFull <;> cases (s.torrent.step j).isFull <;> simp
        · -- the download was complete, and still is
          have hkept : (s.torrent.step j).isFull = true := by
            by_contra hnot
            exact hopen ⟨hpos, hfull hpos, Bool.eq_false_of_not_eq_true hnot⟩
          rw [hfull hpos, hkept]
          simpa using hle
      · obtain ⟨htorrent, hcompleted⟩ := apply_eq (fun j hj => hround ⟨j, hj⟩) s
        rw [htorrent, hcompleted]
        exact ⟨hle, hfull⟩
  exact hs.1

/-- **All trackers are in order in every run without interference.** -/
theorem trackersInv_of_reach (h : (trackedSystem c).Reach InOrder s) : s.TrackersInv := by
  refine h.strengthen (fun s hs => torrent_of_reach hs) ?_ ?_
  · rintro s ⟨-, heq⟩ ref t ht
    rw [heq] at ht
    cases ht
  · rintro s i t hreach hs horder ⟨hadmits, rfl⟩
    exact hs.apply (TorrentActor.seedsFull_of_reach hreach) (TorrentActor.bitsInv_of_reach hreach)
      hadmits horder

end TrackedTorrent

/-! ### What is announced -/

/-- The announces carry the events they are made for, and none of the others an event; and there are
no more of a kind than the torrent had transitions.  A tracker actor that has stopped has taken its
leave with one more. -/
structure TrackerActor.ReportsOnce (entered completed stopped : ℕ) (t : TrackerActor) : Prop where
  carried : ∀ a ∈ t.announced, a.2 = a.1.event
  started : t.announced.countP (fun a => a.2 = .started) ≤ entered
  completed : t.announced.countP (fun a => a.2 = .completed) ≤ completed
  stopped : t.announced.countP (fun a => a.2 = .stopped) ≤ stopped + if t.alive then 0 else 1

/-- Announces that carry an event are made for it, or to take leave. -/
theorem countP_carried {announced : List (Origin × Event)} (h : ∀ a ∈ announced, a.2 = a.1.event)
    {event : Event} (hne : event ≠ .empty) :
    announced.countP (fun a => a.2 = event) =
      (announced.map Prod.fst).count (.lifecycle event) +
        if event = .stopped then (announced.map Prod.fst).count .farewell else 0 := by
  induction announced with
  | nil => simp
  | cons a announced ih =>
      rw [List.forall_mem_cons] at h
      obtain ⟨origin, carried⟩ := a
      obtain ⟨hcarried, hrest⟩ := h
      change carried = origin.event at hcarried
      subst hcarried
      rw [List.countP_cons, ih hrest, List.map_cons, List.count_cons, List.count_cons]
      cases origin with
      | lifecycle event' =>
          by_cases heq : event' = event
          · simp [Origin.event, heq]
            omega
          · simp [Origin.event, heq]
      | other => simp [Origin.event, Ne.symm hne]
      | farewell =>
          by_cases hstopped : event = .stopped
          · subst hstopped
            simp [Origin.event]
            omega
          · simp [Origin.event, hstopped, Ne.symm hstopped]

/-- A tracker in order reports each transition once. -/
theorem TrackerInv.reportsOnce {transitions : Event → ℕ} {t : TrackerActor}
    {outgoing : List TrackerMessage} (h : TrackerInv transitions t outgoing) :
    t.ReportsOnce (transitions .started) (transitions .completed) (transitions .stopped) := by
  have hle : ∀ event, event ≠ .empty →
      (t.announced.map Prod.fst).count (.lifecycle event) ≤ transitions event := by
    intro event hne
    have htally := h.tallied event hne
    rw [tally] at htally
    omega
  have hfarewell := h.farewell
  refine ⟨h.carried, ?_, ?_, ?_⟩
  · rw [countP_carried h.carried (by decide), if_neg (by decide), Nat.add_zero]
    exact hle .started (by decide)
  · rw [countP_carried h.carried (by decide), if_neg (by decide), Nat.add_zero]
    exact hle .completed (by decide)
  · rw [countP_carried h.carried (by decide), if_pos rfl]
    exact Nat.add_le_add (hle .stopped (by decide)) hfarewell

/-- **In every run in which no scheduled announce gets between the messages of an event and no
download is completed a second time, each transition of the torrent is announced at most once to each
tracker, and every other announce carries no event**; and `Completed` is announced at most once for one
download. -/
theorem events_reported_once {H : Type} [DecidableEq H] {c : Codec H} {s : TrackedTorrent H}
    (h : (trackedSystem c).Reach TrackedTorrent.InOrder s) {ref : ℕ} {t : TrackerActor}
    (ht : s.trackers ref = some t) :
    t.ReportsOnce s.entered s.completed s.stopped ∧
      ((trackedSystem c).Reach (fun s i => ¬ s.Reopens i) s →
        t.announced.countP (fun a => a.2 = .completed) ≤ 1) := by
  have honce := (TrackedTorrent.trackersInv_of_reach h ref t ht).reportsOnce
  exact ⟨honce, fun hone => honce.completed.trans (TrackedTorrent.completed_le_one hone)⟩

namespace Sample

/-- The sample torrent without trackers. -/
def tracked : TrackedTorrent Bytes := ⟨fromFile .inFile, fun _ => none, fun _ => [], 0, 0, 0⟩

theorem init_tracked : (trackedSystem codec).init tracked := ⟨init_fromFile .inFile, rfl⟩

/-- The torrent is started with one tracker. -/
def trackedStart : TrackedTorrent Bytes :=
  (tracked.addTracker 0).round (input (.setState .downloading startEnv broadcastEnv))

theorem reach_trackedStart {G : TrackedTorrent Bytes → TrackedInput codec → Prop}
    (hadd : G tracked (.addTracker 0))
    (hround : G (tracked.addTracker 0)
      (.round (input (.setState .downloading startEnv broadcastEnv)))) :
    (trackedSystem codec).Reach G trackedStart := by
  have hidle : ∀ ref, tracked.outgoing ref = [] := fun _ => rfl
  refine .step (.step (.init init_tracked) hadd ⟨hidle, rfl⟩) hround ⟨⟨?_, trivial⟩, rfl⟩
  intro ref
  rfl

/-- One step after the other. -/
def applyAll (s : TrackedTorrent Bytes) (inputs : List (TrackedInput codec)) :
    TrackedTorrent Bytes :=
  inputs.foldl TrackedTorrent.apply s

/-- Steps that are admitted in every state. -/
theorem reach_applyAll {G : TrackedTorrent Bytes → TrackedInput codec → Prop}
    {inputs : List (TrackedInput codec)} {s : TrackedTorrent Bytes}
    (hs : (trackedSystem codec).Reach G s)
    (h : ∀ i ∈ inputs, ∀ u : TrackedTorrent Bytes, u.Admits i ∧ G u i) :
    (trackedSystem codec).Reach G (applyAll s inputs) := by
  induction inputs generalizing s with
  | nil => exact hs
  | cons i inputs ih =>
      rw [List.forall_mem_cons] at h
      exact ih (.step hs (h.1 s).2 ⟨(h.1 s).1, rfl⟩) h.2

/-- The messages of the start reach the tracker, and it takes them. -/
def told : List (TrackedInput codec) :=
  [.send 0, .send 0, .send 0, .process 0, .process 0, .process 0]

/-- A scheduled announce comes between them. -/
def interrupted : List (TrackedInput codec) :=
  [.send 0, .timer 0, .send 0, .send 0, .process 0, .process 0, .process 0, .process 0]

theorem announced_told :
    ((applyAll trackedStart told).trackers 0).map TrackerActor.announced =
      some [(.lifecycle .started, .started)] := by
  decide +kernel

theorem announced_interrupted :
    ((applyAll trackedStart interrupted).trackers 0).map TrackerActor.announced =
      some [(.other, .started), (.lifecycle .started, .started)] ∧
    (applyAll trackedStart interrupted).entered = 1 := by
  decide +kernel

end Sample

theorem events_reported_once_sample :
    ∃ t, (Sample.applyAll Sample.trackedStart Sample.told).trackers 0 = some t ∧
      t.ReportsOnce 1 0 0 ∧ t.announced.countP (fun a => a.2 = .completed) ≤ 1 := by
  have hone : (trackedSystem Sample.codec).Reach (fun s i => ¬ s.Reopens i)
      (Sample.applyAll Sample.trackedStart Sample.told) := by
    refine Sample.reach_applyAll (Sample.reach_trackedStart id ?_) ?_
    · exact fun h => absurd h.1 (Nat.lt_irrefl 0)
    · simp [Sample.told, TrackedTorrent.Admits, TrackedTorrent.Reopens]
  have hreach : (trackedSystem Sample.codec).Reach TrackedTorrent.InOrder
      (Sample.applyAll Sample.trackedStart Sample.told) := by
    refine Sample.reach_applyAll (Sample.reach_trackedStart trivial id) ?_
    simp [Sample.told, TrackedTorrent.Admits, TrackedTorrent.InOrder]
  obtain ⟨t, ht, -⟩ := Option.map_eq_some_iff.1 Sample.announced_told
  have hcounts : (Sample.applyAll Sample.trackedStart Sample.told).entered = 1 ∧
      (Sample.applyAll Sample.trackedStart Sample.told).completed = 0 ∧
      (Sample.applyAll Sample.trackedStart Sample.told).stopped = 0 := by
    decide +kernel
  obtain ⟨honce, hcompleted⟩ := events_reported_once hreach ht
  rw [hcounts.1, hcounts.2.1, hcounts.2.2] at honce
  exact ⟨t, ht, honce, hcompleted hone⟩

/-- **A scheduled announce between the messages of the start carries the event too**, and the tracker
is told twice of one start. -/
theorem interrupted_start_announced_twice :
    ∃ s t, (trackedSystem Sample.codec).Reach (fun _ _ => True) s ∧ s.trackers 0 = some t ∧
      (Origin.other, Event.started) ∈ t.announced ∧
      ¬ t.ReportsOnce s.entered s.completed s.stopped := by
  have hreach : (trackedSystem Sample.codec).Reach (fun _ _ => True)
      (Sample.applyAll Sample.trackedStart Sample.interrupted) := by
    refine Sample.reach_applyAll (Sample.reach_trackedStart trivial trivial) ?_
    simp [Sample.interrupted, TrackedTorrent.Admits]
  obtain ⟨hannounced, hentered⟩ := Sample.announced_interrupted
  obtain ⟨t, ht, heq⟩ := Option.map_eq_some_iff.1 hannounced
  refine ⟨_, t, hreach, ht, ?_, ?_⟩
  · rw [heq]
    exact List.mem_cons_self ..
  · intro honce
    have hstarted := honce.started
    rw [hentered, heq] at hstarted
    exact absurd hstarted (by decide)

end Tortillas
