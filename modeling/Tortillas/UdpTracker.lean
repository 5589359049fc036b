/-
**Announcing to a UDP tracker.**

`tracker/udp.rs`: a tracker is connected before it is announced to, and answers with a connection id that
every announce has to carry.  When it refuses an announce because of its connection id, the client marks the
tracker as disconnected, connects again and repeats the announce, as often as the settings allow.  An
announce to a tracker that is marked as disconnected fails at once; nothing connects it again.

What the tracker does is a function of the time, which is counted in requests, and of the request; so is the
transaction id, which the code draws at random.

Main definitions:

* `TrackerNet` — what comes of each request;
* `UdpTracker.connect`, `UdpTracker.announce`, `UdpTracker.stop`, `UdpTracker.update`;
* `UdpTracker.Strands` — an announce is refused for its connection id, and the connect after it fails;
* `TrackerNet.Recovers` — from some time on connects are answered, and announces with the ids they gave.

Main results:

* `UdpTracker.readyState_call` — a call leaves a ready tracker ready exactly if it does not strand it;
* `udp_tracker_recovers` — **exactly when the next announce returns peers**, after any calls;
* `failed_reconnect_strands_tracker` — after a refusal and a connect that fails, every announce fails.
-/

import Mathlib.Data.List.Infix
import Tortillas.UdpServer
import Tortillas.TrackerActor

set_option relaxedAutoImplicit false
set_option autoImplicit false

namespace Tortillas

/-! ### Requests -/

inductive Action
  | connect
  | announce
  | scrape
  | error
  deriving DecidableEq

inductive TrackerRequest
  | connect (connectionId : UInt64) (action : Action) (transactionId : UInt32)
  | announce (connectionId : UInt64) (transactionId : UInt32) (infoHash peerId : Bytes)
      (downloaded left uploaded : UInt64) (event : Event) (ipAddress key : UInt32) (numWant : Int32)
      (port : UInt16)
  deriving DecidableEq

/-- The magic constant of connect requests. -/
def magicConstant : UInt64 := 0x41727101980

inductive TrackerActorError
  | invalidResponse (reason : Text)
  | transactionMismatch (expected received : UInt32)
  | trackerError (message : Text)
  | requestTimeout (seconds : ℕ)
  deriving DecidableEq

/-- Why an announce fails. -/
inductive AnnounceError
  | notReady (message : Text)
  | tracker (error : TrackerActorError)
  /-- The loop of `announce` ends. -/
  | unreachable
  deriving DecidableEq

/-- What comes of `send_and_wait`. -/
inductive TrackerOutcome
  | response (response : TrackerResponse)
  | failed (error : TrackerActorError)
  /-- No response, in as much time as there is. -/
  | silence
  deriving DecidableEq

structure TrackerNet where
  transactionIds : ℕ → UInt32
  outcome : ℕ → TrackerRequest → TrackerOutcome

/-- The request of `connect` at some time, and what comes of it. -/
def TrackerNet.connect (net : TrackerNet) (clock : ℕ) : TrackerOutcome :=
  net.outcome clock (.connect magicConstant .connect (net.transactionIds clock))

/-- Those that the functions below read; times are in milliseconds. -/
structure TrackerSettings where
  udpConnectTimeout : ℕ := 3000
  udpMessageTimeout : ℕ := 300
  udpConnectionIdRetryAttempts : ℕ := 2
  udpAnnounceIpAddress : UInt32 := 0
  udpAnnounceKey : UInt32 := 0
  udpNumWant : Int32 := -1

/-- `as_secs().max(1)` -/
def timeoutSeconds (milliseconds : ℕ) : ℕ := max (milliseconds / 1000) 1

/-- The fields of a tracker that do not change. -/
structure UdpTrackerArgs where
  infoHash : Bytes
  peerId : Bytes
  port : UInt16
  settings : TrackerSettings

inductive ReadyState
  | ready
  | disconnected
  deriving DecidableEq

structure AnnounceParams where
  left : UInt64 := 0
  downloaded : UInt64 := 0
  uploaded : UInt64 := 0
  event : Event := .empty
  deriving DecidableEq

/-- The request of `announce` at some time, and what comes of it. -/
def TrackerNet.announce (net : TrackerNet) (args : UdpTrackerArgs) (params : AnnounceParams)
    (connectionId : UInt64) (clock : ℕ) : TrackerOutcome :=
  net.outcome clock (.announce connectionId (net.transactionIds clock) args.infoHash args.peerId
    params.downloaded params.left params.uploaded params.event args.settings.udpAnnounceIpAddress
    args.settings.udpAnnounceKey args.settings.udpNumWant args.port)

structure UdpTracker where
  connectionId : UInt64
  readyState : ReadyState
  interval : UInt32
  announceParams : AnnounceParams
  announceAttempts : ℕ
  announceSuccesses : ℕ
  totalPeersReceived : ℕ
  /-- How many requests there were. -/
  clock : ℕ

inductive TrackerUpdate
  | uploaded (bytes : UInt64)
  | downloaded (bytes : UInt64)
  | left (bytes : UInt64)
  | event (event : Event)

/-- `message.to_ascii_lowercase().contains("connection id")` -/
def namesConnectionId (message : Text) : Bool :=
  decide ("connection id".toList <:+: message.map Char.toLower)

namespace UdpTracker

def new : UdpTracker := ⟨0, .disconnected, UInt32.ofNat (2 ^ 32 - 1), {}, 0, 0, 0, 0⟩

/-- The time passes with a request. -/
def tick (t : UdpTracker) : UdpTracker := { t with clock := t.clock + 1 }

/-- `connect`, which is also all that `initialize` does. -/
def connect (args : UdpTrackerArgs) (net : TrackerNet) (t : UdpTracker) :
    Except TrackerActorError UInt64 × UdpTracker :=
  match net.connect t.clock with
  | .response (.connect _ connectionId) =>
      (.ok connectionId, { t.tick with connectionId := connectionId, readyState := .ready })
  | .response (.error _ message) => (.error (.trackerError message), t.tick)
  | .response _ => (.error (.invalidResponse "Expected connect response".toList), t.tick)
  | .failed error => (.error error, t.tick)
  | .silence =>
      (.error (.requestTimeout (timeoutSeconds args.settings.udpConnectTimeout)), t.tick)

/-- The loop of `announce`, with the number of attempts that are left. -/
def announceLoop (args : UdpTrackerArgs) (net : TrackerNet) :
    ℕ → UdpTracker → Except AnnounceError (List SocketAddr) × UdpTracker
  | 0, t => (.error .unreachable, t)
  | attempts + 1, t =>
      match net.announce args t.announceParams t.connectionId t.clock with
      | .response (.announce transactionId interval _ _ peers) =>
          if transactionId = net.transactionIds t.clock then
            (.ok peers, { t.tick with
              announceSuccesses := t.announceSuccesses + 1
              totalPeersReceived := t.totalPeersReceived + peers.length
              interval := interval })
          else
            (.error (.tracker (.transactionMismatch (net.transactionIds t.clock) transactionId)), t.tick)
      | .response (.error _ message) =>
          if attempts ≠ 0 ∧ namesConnectionId message then
            match connect args net { t.tick with readyState := .disconnected } with
            | (.ok _, t) => announceLoop args net attempts t
            | (.error error, t) => (.error (.tracker error), t)
          else (.error (.tracker (.trackerError message)), t.tick)
      | .response _ => (.error (.tracker (.invalidResponse "Expected announce response".toList)), t.tick)
      | .failed error => (.error (.tracker error), t.tick)
      | .silence =>
          (.error (.tracker (.requestTimeout (timeoutSeconds args.settings.udpMessageTimeout))), t.tick)

/-- `udp_connection_id_retry_attempts.max(1)` -/
def attempts (args : UdpTrackerArgs) : ℕ := max args.settings.udpConnectionIdRetryAttempts 1

theorem attempts_eq (args : UdpTrackerArgs) : attempts args = (attempts args - 1) + 1 := by
  unfold attempts
  omega

def announce (args : UdpTrackerArgs) (net : TrackerNet) (t : UdpTracker) :
    Except AnnounceError (List SocketAddr) × UdpTracker :=
  if t.readyState = .ready then
    announceLoop args net (attempts args) { t with announceAttempts := t.announceAttempts + 1 }
  else (.error (.notReady "Tracker not ready for announce request".toList), t)

def update (t : UdpTracker) : TrackerUpdate → UdpTracker
  | .uploaded bytes => { t with announceParams := { t.announceParams with uploaded := bytes } }
  | .downloaded bytes => { t with announceParams := { t.announceParams with downloaded := bytes } }
  | .left bytes => { t with announceParams := { t.announceParams with left := bytes } }
  | .event event => { t with announceParams := { t.announceParams with event := event } }

def stop (args : UdpTrackerArgs) (net : TrackerNet) (t : UdpTracker) :
    Except AnnounceError Unit × UdpTracker :=
  if t.readyState = .ready then
    match announce args net (t.update (.event .stopped)) with
    | (.ok _, t) => (.ok (), t)
    | (.error error, t) => (.error error, t)
  else (.error (.notReady "Tracker not ready for a stop request".toList), t)

end UdpTracker

inductive TrackerCall
  | announce
  | update (update : TrackerUpdate)
  | stop

def UdpTracker.call (args : UdpTrackerArgs) (net : TrackerNet) (t : UdpTracker) :
    TrackerCall → UdpTracker
  | .announce => (t.announce args net).2
  | .update update => t.update update
  | .stop => (t.stop args net).2

/-! ### Refusals -/

namespace TrackerNet

variable (net : TrackerNet) (args : UdpTrackerArgs) (params : AnnounceParams)

/-- A connect is answered with the id. -/
def Connects (clock : ℕ) (connectionId : UInt64) : Prop :=
  ∃ transactionId, net.connect clock = .response (.connect transactionId connectionId)

/-- An announce is answered with peers. -/
def Accepts (connectionId : UInt64) (clock : ℕ) : Prop :=
  ∃ interval leechers seeders peers, net.announce args params connectionId clock =
    .response (.announce (net.transactionIds clock) interval leechers seeders peers)

/-- An announce is refused because of its connection id. -/
def Refuses (connectionId : UInt64) (clock : ℕ) : Prop :=
  ∃ transactionId message, namesConnectionId message = true ∧
    net.announce args params connectionId clock = .response (.error transactionId message)

/-- With so many attempts, each announce up to some one is refused because of its connection id and each
connect in between is answered, and the connect after the last refusal is not. -/
inductive Strands : ℕ → UInt64 → ℕ → Prop
  | last {attempts : ℕ} {connectionId : UInt64} {clock : ℕ}
      (hrefused : net.Refuses args params connectionId clock)
      (hfails : ∀ id, ¬ net.Connects (clock + 1) id) : Strands (attempts + 2) connectionId clock
  | next {attempts : ℕ} {connectionId id : UInt64} {clock : ℕ}
      (hrefused : net.Refuses args params connectionId clock) (hconnects : net.Connects (clock + 1) id)
      (h : Strands (attempts + 1) id (clock + 2)) : Strands (attempts + 2) connectionId clock

/-- From some time on every connect is answered, and the id it gives is good for the announce after it. -/
structure Recovers (start : ℕ) : Prop where
  connects : ∀ clock, start ≤ clock → ∃ connectionId, net.Connects clock connectionId
  accepts : ∀ clock connectionId, start ≤ clock → net.Connects clock connectionId →
    ∀ params, net.Accepts args params connectionId (clock + 1)

variable {net args params}

theorem Strands.refuses {attempts clock : ℕ} {connectionId : UInt64}
    (h : net.Strands args params attempts connectionId clock) :
    net.Refuses args params connectionId clock ∧ attempts ≠ 1 := by
  cases h with
  | last hrefused => exact ⟨hrefused, by simp⟩
  | next hrefused => exact ⟨hrefused, by simp⟩

theorem Accepts.not_refuses {clock : ℕ} {connectionId : UInt64}
    (h : net.Accepts args params connectionId clock) : ¬ net.Refuses args params connectionId clock := by
  rintro ⟨_, _, _, hrefuses⟩
  obtain ⟨_, _, _, _, haccepts⟩ := h
  cases haccepts.symm.trans hrefuses

end TrackerNet

/-- The announce of the call strands the tracker. -/
def UdpTracker.Strands (args : UdpTrackerArgs) (net : TrackerNet) (t : UdpTracker) : TrackerCall → Prop
  | .announce => net.Strands args t.announceParams (attempts args) t.connectionId t.clock
  | .update _ => False
  | .stop => net.Strands args { t.announceParams with event := .stopped } (attempts args) t.connectionId
      t.clock

namespace UdpTracker

variable {args : UdpTrackerArgs} {net : TrackerNet} {t : UdpTracker}

/-- What `connect` does: it gives an id and makes the tracker ready, or changes nothing. -/
theorem connect_cases (args : UdpTrackerArgs) (net : TrackerNet) (t : UdpTracker) :
    (∃ id, net.Connects t.clock id ∧ t.connect args net =
      (.ok id, { t.tick with connectionId := id, readyState := .ready })) ∨
    (∃ error, (∀ id, ¬ net.Connects t.clock id) ∧ t.connect args net = (.error error, t.tick)) := by
  simp only [connect, TrackerNet.Connects]
  cases houtcome : net.connect t.clock with
  | response response =>
      cases response with
      | connect transactionId id => exact .inl ⟨id, ⟨transactionId, rfl⟩, rfl⟩
      | announce => exact .inr ⟨_, by simp, rfl⟩
      | error => exact .inr ⟨_, by simp, rfl⟩
  | failed error => exact .inr ⟨error, by simp, rfl⟩
  | silence => exact .inr ⟨_, by simp, rfl⟩

/-- What an attempt does: it ends the announce, or the announce is refused and goes on after a connect. -/
theorem announceLoop_cases (args : UdpTrackerArgs) (net : TrackerNet) (n : ℕ) (t : UdpTracker) :
    (∃ peers t', net.Accepts args t.announceParams t.connectionId t.clock ∧
      t.announceLoop args net (n + 1) = (.ok peers, t') ∧ t'.readyState = t.readyState) ∨
    (∃ error, ¬ net.Accepts args t.announceParams t.connectionId t.clock ∧
      (n = 0 ∨ ¬ net.Refuses args t.announceParams t.connectionId t.clock) ∧
      t.announceLoop args net (n + 1) = (.error (.tracker error), t.tick)) ∨
    (∃ error, net.Refuses args t.announceParams t.connectionId t.clock ∧ n ≠ 0 ∧
      (∀ id, ¬ net.Connects (t.clock + 1) id) ∧
      t.announceLoop args net (n + 1) =
        (.error (.tracker error), { t.tick.tick with readyState := .disconnected })) ∨
    (∃ id, net.Refuses args t.announceParams t.connectionId t.clock ∧ n ≠ 0 ∧
      net.Connects (t.clock + 1) id ∧
      t.announceLoop args net (n + 1) =
        announceLoop args net n { t.tick.tick with connectionId := id, readyState := .ready }) := by
  simp only [announceLoop, TrackerNet.Accepts, TrackerNet.Refuses]
  cases houtcome : net.announce args t.announceParams t.connectionId t.clock with
  | response response =>
      cases response with
      | connect => exact .inr (.inl ⟨_, by simp, by simp, rfl⟩)
      | announce transactionId interval leechers seeders peers =>
          by_cases hid : transactionId = net.transactionIds t.clock
          · subst hid
            exact .inl ⟨peers, _, ⟨interval, leechers, seeders, peers, rfl⟩, if_pos rfl, rfl⟩
          · exact .inr (.inl ⟨_, by simp [hid], by simp, if_neg hid⟩)
      | error transactionId message =>
          by_cases hretry : n ≠ 0 ∧ namesConnectionId message
          · have hrefused : ∃ transactionId' message', namesConnectionId message' = true ∧
                TrackerOutcome.response (.error transactionId message) =
                  .response (.error transactionId' message') := ⟨_, _, hretry.2, rfl⟩
            simp only [if_pos hretry]
            rcases connect_cases args net { t.tick with readyState := .disconnected } with
              ⟨id, hconnects, hconnect⟩ | ⟨error, hfails, hconnect⟩
            · exact .inr (.inr (.inr ⟨id, hrefused, hretry.1, hconnects, by rw [hconnect]; rfl⟩))
            · exact .inr (.inr (.inl ⟨_, hrefused, hretry.1, hfails, by rw [hconnect]; rfl⟩))
          · refine .inr (.inl ⟨_, by simp, ?_, if_neg hretry⟩)
            rw [not_and_or, not_not] at hretry
            refine hretry.imp_right fun hnot => ?_
            simpa using hnot
  | failed error => exact .inr (.inl ⟨_, by simp, by simp, rfl⟩)
  | silence => exact .inr (.inl ⟨_, by simp, by simp, rfl⟩)

/-- There is an attempt, so that the end of the loop is not reached. -/
theorem announce_ne_unreachable (args : UdpTrackerArgs) (net : TrackerNet) (t : UdpTracker) :
    (t.announce args net).1 ≠ .error .unreachable := by
  have hloop (n : ℕ) : ∀ t : UdpTracker, (t.announceLoop args net (n + 1)).1 ≠ .error .unreachable := by
    induction n with
    | zero =>
        intro t
        rcases announceLoop_cases args net 0 t with ⟨peers, t', -, heq, -⟩ | ⟨error, -, -, heq⟩ |
          ⟨error, -, hn, -⟩ | ⟨id, -, hn, -⟩
        · simp [heq]
        · simp [heq]
        · exact absurd rfl hn
        · exact absurd rfl hn
    | succ n ih =>
        intro t
        rcases announceLoop_cases args net (n + 1) t with ⟨peers, t', -, heq, -⟩ | ⟨error, -, -, heq⟩ |
          ⟨error, -, -, -, heq⟩ | ⟨id, -, -, -, heq⟩
        · simp [heq]
        · simp [heq]
        · simp [heq]
        · rw [heq]
          exact ih _
  rw [announce]
  split
  · rw [attempts_eq args]
    exact hloop _ _
  · simp

/-! ### Readiness -/

/-- **The loop leaves a ready tracker disconnected exactly if it strands it.** -/
theorem readyState_announceLoop (n : ℕ) (hready : t.readyState = .ready) :
    (t.announceLoop args net n).2.readyState = .disconnected ↔
      net.Strands args t.announceParams n t.connectionId t.clock := by
  induction n generalizing t with
  | zero =>
      refine iff_of_false ?_ fun h => (nomatch h)
      simp [announceLoop, hready]
  | succ n ih =>
      rcases announceLoop_cases args net n t with ⟨peers, t', haccepts, heq, hstate⟩ |
        ⟨error, -, hend, heq⟩ | ⟨error, hrefuses, hn, hfails, heq⟩ | ⟨id, hrefuses, hn, hconnects, heq⟩
      · refine iff_of_false (by simp [heq, hstate, hready]) fun h => ?_
        exact haccepts.not_refuses h.refuses.1
      · refine iff_of_false (by simp [heq, tick, hready]) fun h => ?_
        obtain ⟨hrefuses, hn⟩ := h.refuses
        rcases hend with rfl | hnot
        · exact hn rfl
        · exact hnot hrefuses
      · obtain ⟨m, rfl⟩ := Nat.exists_eq_succ_of_ne_zero hn
        exact iff_of_true (by rw [heq]) (.last hrefuses hfails)
      · obtain ⟨m, rfl⟩ := Nat.exists_eq_succ_of_ne_zero hn
        rw [heq, ih rfl]
        refine ⟨.next hrefuses hconnects, fun h => ?_⟩
        cases h with
        | last _ hfails => exact absurd hconnects (hfails id)
        | next _ hconnects' h =>
            -- the connect gives one id
            obtain ⟨_, hid⟩ := hconnects
            obtain ⟨_, hid'⟩ := hconnects'
            cases hid.symm.trans hid'
            exact h

theorem readyState_update (t : UdpTracker) (update : TrackerUpdate) :
    (t.update update).readyState = t.readyState := by
  cases update <;> rfl

theorem readyState_announce (hready : t.readyState = .ready) :
    (t.announce args net).2.readyState = .disconnected ↔
      net.Strands args t.announceParams (attempts args) t.connectionId t.clock := by
  rw [announce, if_pos hready]
  exact readyState_announceLoop (t := { t with announceAttempts := t.announceAttempts + 1 }) _ hready

theorem stop_snd (hready : t.readyState = .ready) :
    (t.stop args net).2 = ((t.update (.event .stopped)).announce args net).2 := by
  rw [stop, if_pos hready]
  split
  · rename_i heq
    rw [heq]
  · rename_i heq
    rw [heq]

/-- **A call leaves a ready tracker disconnected exactly if it strands it.** -/
theorem readyState_call (hready : t.readyState = .ready) (c : TrackerCall) :
    (t.call args net c).readyState = .disconnected ↔ t.Strands args net c := by
  cases c with
  | announce => exact readyState_announce hready
  | update update =>
      refine iff_of_false ?_ id
      simp [call, readyState_update, hready]
  | stop =>
      simp only [call, stop_snd hready]
      exact readyState_announce (t := t.update (.event .stopped)) hready

/-- A tracker that is not ready stays as it is, up to its parameters. -/
theorem call_of_disconnected (h : t.readyState ≠ .ready) (c : TrackerCall) :
    (t.call args net c).readyState = t.readyState := by
  cases c with
  | announce => rw [call, announce, if_neg h]
  | update update => exact readyState_update t update
  | stop => rw [call, stop, if_neg h]

theorem readyState_foldl_of_disconnected (h : t.readyState ≠ .ready) (calls : List TrackerCall) :
    (calls.foldl (call args net) t).readyState ≠ .ready := by
  induction calls generalizing t with
  | nil => exact h
  | cons c calls ih => exact ih ((call_of_disconnected h c).trans_ne h)

/-- A call leaves a tracker ready exactly if it was ready and the call does not strand it. -/
theorem readyState_call_iff (c : TrackerCall) :
    (t.call args net c).readyState = .ready ↔ t.readyState = .ready ∧ ¬ t.Strands args net c := by
  by_cases hready : t.readyState = .ready
  · rw [and_iff_right hready, ← readyState_call hready c]
    cases (t.call args net c).readyState with
    | ready => exact iff_of_true rfl nofun
    | disconnected => exact iff_of_false nofun fun h => h rfl
  · rw [call_of_disconnected hready c]
    exact iff_of_false hready fun h => hready h.1

/-- A ready tracker is ready after calls exactly if none of them strands it. -/
theorem readyState_foldl (hready : t.readyState = .ready) (calls : List TrackerCall) :
    (calls.foldl (call args net) t).readyState = .ready ↔
      System.Along (fun t c => ¬ t.Strands args net c) (call args net) t calls :=
  (System.along_iff (I := fun _ => True) (P := fun t : UdpTracker => t.readyState = .ready) (fun _ _ _ => trivial)
    (fun _ c _ => readyState_call_iff c) calls trivial).trans (and_iff_right hready)

/-- An announce that may be repeated once more returns peers, when the tracker works again. -/
theorem announceLoop_isOk (n : ℕ) (hnet : net.Recovers args t.clock) :
    (∃ peers, (t.announceLoop args net (n + 1)).1 = .ok peers) ↔
      net.Accepts args t.announceParams t.connectionId t.clock ∨
        n ≠ 0 ∧ net.Refuses args t.announceParams t.connectionId t.clock := by
  rcases announceLoop_cases args net n t with ⟨peers, t', haccepts, heq, -⟩ |
    ⟨error, hnot, hend, heq⟩ | ⟨error, -, -, hfails, -⟩ | ⟨id, hrefuses, hn, hconnects, heq⟩
  · exact iff_of_true ⟨peers, by rw [heq]⟩ (.inl haccepts)
  · refine iff_of_false (by simp [heq]) ?_
    rintro (haccepts | ⟨hn, hrefuses⟩)
    · exact hnot haccepts
    · exact hend.elim hn fun h => h hrefuses
  · obtain ⟨id, hconnects⟩ := hnet.connects (t.clock + 1) (Nat.le_succ _)
    exact absurd hconnects (hfails id)
  · refine iff_of_true ?_ (.inr ⟨hn, hrefuses⟩)
    obtain ⟨m, rfl⟩ := Nat.exists_eq_succ_of_ne_zero hn
    have haccepts := hnet.accepts (t.clock + 1) id (Nat.le_succ _) hconnects t.announceParams
    rw [heq]
    -- the id is new, so that the second announce is answered
    rcases announceLoop_cases args net m { t.tick.tick with connectionId := id, readyState := .ready }
      with ⟨peers, t', -, heq', -⟩ | ⟨error, hnot, -⟩ | ⟨error, hrefuses', -⟩ | ⟨id', hrefuses', -⟩
    · exact ⟨peers, by rw [heq']⟩
    · exact absurd haccepts hnot
    · exact absurd hrefuses' haccepts.not_refuses
    · exact absurd hrefuses' haccepts.not_refuses

/-- The next announce to a tracker that works again. -/
theorem announce_isOk (hnet : net.Recovers args t.clock) :
    (∃ peers, (t.announce args net).1 = .ok peers) ↔
      t.readyState = .ready ∧ (net.Accepts args t.announceParams t.connectionId t.clock ∨
        1 < args.settings.udpConnectionIdRetryAttempts ∧
          net.Refuses args t.announceParams t.connectionId t.clock) := by
  rw [announce]
  split
  · rename_i hready
    have hmore : attempts args - 1 ≠ 0 ↔ 1 < args.settings.udpConnectionIdRetryAttempts := by
      unfold attempts
      omega
    rw [attempts_eq args, announceLoop_isOk (t := { t with announceAttempts := t.announceAttempts + 1 }) _ hnet,
      hmore]
    exact (and_iff_right hready).symm
  · rename_i hnot
    exact iff_of_false (by simp) fun h => hnot h.1

end UdpTracker

/-- **Exactly when the next announce returns peers**, after a connect and any calls, when the tracker
works again: none of the calls has stranded the client, and the tracker accepts the id of the client, or
refuses it by an error that names the connection id, if the settings allow for a second attempt.  If one
of the calls has stranded it, every later announce fails at once.  No announce comes to the end of its loop. -/
theorem udp_tracker_recovers (args : UdpTrackerArgs) (net : TrackerNet) (id : UInt64)
    (calls : List TrackerCall) (hconnect : (UdpTracker.new.connect args net).1 = .ok id)
    (hnet : net.Recovers args
      (calls.foldl (UdpTracker.call args net) (UdpTracker.new.connect args net).2).clock) :
    let start := (UdpTracker.new.connect args net).2
    let t := calls.foldl (UdpTracker.call args net) start
    ((∃ peers, (t.announce args net).1 = .ok peers) ↔
      System.Along (fun t c => ¬ t.Strands args net c) (UdpTracker.call args net) start calls ∧
      (net.Accepts args t.announceParams t.connectionId t.clock ∨
        1 < args.settings.udpConnectionIdRetryAttempts ∧
          net.Refuses args t.announceParams t.connectionId t.clock)) ∧
    (¬ System.Along (fun t c => ¬ t.Strands args net c) (UdpTracker.call args net) start calls →
      ∀ later : List TrackerCall, ((later.foldl (UdpTracker.call args net) t).announce args net).1 =
        .error (.notReady "Tracker not ready for announce request".toList)) ∧
    (t.announce args net).1 ≠ .error .unreachable := by
  intro start t
  have hready : start.readyState = .ready := by
    rcases UdpTracker.connect_cases args net .new with ⟨id', -, heq⟩ | ⟨error, -, heq⟩
    · rw [heq] at hconnect
      simp only [start, heq]
    · rw [heq] at hconnect
      cases hconnect
  have hstate : t.readyState = .ready ↔
      System.Along (fun t c => ¬ t.Strands args net c) (UdpTracker.call args net) start calls :=
    UdpTracker.readyState_foldl hready calls
  refine ⟨?_, ?_, UdpTracker.announce_ne_unreachable args net t⟩
  · rw [UdpTracker.announce_isOk hnet]
    exact and_congr_left' hstate
  · intro hstranded later
    have hnot : t.readyState ≠ .ready := fun h => hstranded (hstate.1 h)
    rw [UdpTracker.announce, if_neg (UdpTracker.readyState_foldl_of_disconnected hnot later)]

namespace Sample

def udpArgs : UdpTrackerArgs := ⟨List.replicate 20 1, List.replicate 20 2, 6881, {}⟩

/-- A tracker that forgets the first connection id it has given; it may be down when the client connects
again. -/
def trackerNet (down : Bool) : TrackerNet where
  transactionIds _ := 7
  outcome clock request :=
    match request with
    | .connect _ _ transactionId =>
        if clock = 2 ∧ down then .silence
        else .response (.connect transactionId (if clock = 0 then 1 else 2))
    | .announce connectionId transactionId _ _ _ _ _ _ _ _ _ _ =>
        if connectionId = 2 then .response (.announce transactionId 1800 0 1 [nodeAddr])
        else .response (.error transactionId "Connection ID mismatch".toList)

/-- It works from the third request on. -/
theorem trackerNet_recovers (down : Bool) (start : ℕ) (h : 3 ≤ start) :
    (trackerNet down).Recovers udpArgs start := by
  have hconnect (clock : ℕ) (hclock : start ≤ clock) :
      (trackerNet down).connect clock = .response (.connect 7 2) := by
    have hlate : ¬ (clock = 2 ∧ down = true) := by omega
    have hpos : clock ≠ 0 := by omega
    simp only [TrackerNet.connect, trackerNet, if_neg hlate, if_neg hpos]
  refine ⟨fun clock hclock => ⟨2, 7, hconnect clock hclock⟩, ?_⟩
  rintro clock id hclock ⟨transactionId, hid⟩ params
  rw [hconnect clock hclock] at hid
  cases hid
  exact ⟨1800, 0, 1, [nodeAddr], rfl⟩

end Sample

open Sample in
theorem udp_tracker_recovers_sample :
    ∃ peers, (([.announce].foldl (UdpTracker.call udpArgs (trackerNet false))
      (UdpTracker.new.connect udpArgs (trackerNet false)).2).announce udpArgs (trackerNet false)).1 =
        .ok peers := by
  refine (udp_tracker_recovers udpArgs (trackerNet false) 1 [.announce] rfl
    (trackerNet_recovers false _ (by decide))).1.2 ⟨?_, .inl ⟨1800, 0, 1, [nodeAddr], by decide⟩⟩
  exact (UdpTracker.readyState_foldl rfl _).1 (by decide)

open Sample in
/-- An announce is refused for its connection id, and the connect after it is not answered: from then on
every announce fails without a request, though the tracker works. -/
theorem failed_reconnect_strands_tracker :
    let start := (UdpTracker.new.connect udpArgs (trackerNet true)).2
    let t := [.announce].foldl (UdpTracker.call udpArgs (trackerNet true)) start
    start.readyState = .ready ∧ (trackerNet true).Recovers udpArgs t.clock ∧
      ∀ later : List TrackerCall,
        ((later.foldl (UdpTracker.call udpArgs (trackerNet true)) t).announce udpArgs (trackerNet true)).1 =
          .error (.notReady "Tracker not ready for announce request".toList) := by
  refine ⟨by decide, trackerNet_recovers true _ (by decide), ?_⟩
  intro later
  rw [UdpTracker.announce, if_neg (UdpTracker.readyState_foldl_of_disconnected (by decide) later)]

end Tortillas
