/-
**When a silent peer is disconnected.**

Each time round its loop, `PeerActor::next` counts how long the peer has been silent.  It counts from the last message
that it has taken in, and before there is one it counts from now.  So a peer that never says anything is never silent
for long: the deadline moves on with the clock, and the peer keeps its place.  Once there has been a message the
deadline is what it should be.  The same is true of keep-alives, of which one is sent for each silence: one that was
sent before now does not count as long as there is no message.

Main definitions:

* `PeerRun` — a connection, with the start of its silence and the keep-alives of it;
* `PeerRun.next` — a round of the loop, with what is handled after it;
* `PeerRun.Sound` — a round disconnects the peer exactly when it is due, and sends no second keep-alive;
* `PeerRun.Prompt` — a message has been taken in, or the deadline is still to come.

Main results:

* `ReceiveLoop.turn_cases` — all that a round can do;
* `PeerRun.Faithful.sound_iff` — one round is sound exactly if it is prompt;
* `silent_peers_disconnected` — **the rounds of a run are sound exactly if they are prompt**.
-/

import Tortillas.ReceiveLoop
import Tortillas.Transition

set_option relaxedAutoImplicit false
set_option autoImplicit false

namespace Tortillas

/-! ### One round -/

namespace ReceiveLoop

variable {s : Serde} {settings : PeerSettings} {env : TurnEnv} {l : ReceiveLoop}

/-- A round sends a keep-alive. -/
def sendsKeepalive (settings : PeerSettings) (env : TurnEnv) (l : ReceiveLoop) : Bool :=
  decide (l.idle env < settings.disconnectTimeout) && l.keepaliveDue settings env && env.sendOk

/-- The loop behind a round: what the stream has become, and the time of a keep-alive. -/
def after (settings : PeerSettings) (env : TurnEnv) (l : ReceiveLoop) (stream : PeerStream) : ReceiveLoop :=
  { l with
    stream := stream
    lastMessageSent := if l.sendsKeepalive settings env then some env.sentAt else l.lastMessageSent }

/-- What a round comes to, unless it disconnects the peer. -/
def Goes (l : ReceiveLoop) (t : Turn) : Prop :=
  t = .panics ∨ ∃ stream, t = .again { l with stream := stream } ∨ ∃ signal, t = .done signal { l with stream := stream } []

theorem receive_goes (upgrade : Bool) (result : Received) (stream : PeerStream) :
    l.Goes (receive upgrade result { l with stream := stream }) := by
  unfold receive
  split
  · exact .inl rfl
  · split
    · exact .inr ⟨_, .inr ⟨_, rfl⟩⟩
    · exact .inr ⟨_, .inl rfl⟩

theorem select_goes {t : Turn} (h : l.select s env = some t) : l.Goes t := by
  unfold select at h
  split at h
  · cases h
    exact .inr ⟨_, .inr ⟨_, rfl⟩⟩
  · split at h
    · cases h
      exact .inr ⟨_, .inr ⟨_, rfl⟩⟩
    · cases h
  -- a result has won, the transport has ended, or it has failed
  · cases h
    exact receive_goes _ _ _
  · cases h
    exact receive_goes _ _ _
  · cases h
    exact receive_goes _ _ _
  · cases h
    exact .inr ⟨_, .inl rfl⟩
  · cases h

theorem after_of_sends (h : l.sendsKeepalive settings env = true) (stream : PeerStream) :
    l.after settings env stream = { l with lastMessageSent := some env.sentAt, stream := stream } := by
  rw [after, if_pos h]

theorem after_of_not_sends (h : l.sendsKeepalive settings env = false) (stream : PeerStream) :
    l.after settings env stream = { l with stream := stream } := by
  rw [after, if_neg (Bool.eq_false_iff.1 h)]

/-- **All that a round can do**: it disconnects the peer, or it sends a keep-alive if one is due, and goes on or hands
something to the actor. -/
theorem turn_cases {t : Turn} (h : l.turn s settings env = some t) :
    (settings.disconnectTimeout ≤ l.idle env ∧ t = .done .stop l [.killPeer l.id]) ∨
      (l.idle env < settings.disconnectTimeout ∧
        (t = .panics ∨ ∃ stream, t = .again (l.after settings env stream) ∨
          ∃ signal, t = .done signal (l.after settings env stream) [])) := by
  unfold turn at h
  split at h
  · rename_i hidle
    cases h
    exact .inl ⟨hidle, rfl⟩
  · rename_i hidle
    have hidle := Nat.lt_of_not_le hidle
    refine .inr ⟨hidle, ?_⟩
    split at h
    · rename_i hdue
      split at h
      · rename_i hsend
        have hsends : l.sendsKeepalive settings env = true := by
          rw [sendsKeepalive, hdue, hsend, Bool.and_true, Bool.and_true, decide_eq_true_iff]
          exact hidle
        have hgoes := select_goes h
        rw [Goes] at hgoes
        simp only [after_of_sends hsends]
        exact hgoes
      · rename_i hsend
        have hsends : l.sendsKeepalive settings env = false := by
          rw [sendsKeepalive, Bool.eq_false_iff.2 hsend, Bool.and_false]
        cases h
        exact .inr ⟨l.stream, .inr ⟨.stop, by rw [after_of_not_sends hsends]⟩⟩
    · rename_i hdue
      have hsends : l.sendsKeepalive settings env = false := by
        rw [sendsKeepalive, Bool.eq_false_iff.2 hdue, Bool.and_false, Bool.false_and]
      have hgoes := select_goes h
      rw [Goes] at hgoes
      simp only [after_of_not_sends hsends]
      exact hgoes

end ReceiveLoop

/-! ### The rounds of a connection -/

/-- A connection: the loop of its actor and the last reading of the clock, when the peer was last heard of or the
connection began, the keep-alives sent since then, and whether the actor has stopped. -/
structure PeerRun where
  loop : ReceiveLoop
  clock : ℕ
  heard : ℕ
  keepalives : ℕ
  stopped : Bool

/-- A round of the loop; and when what it hands to the actor has been handled, and what has then become of the
stream. -/
structure Round where
  env : TurnEnv
  handledAt : ℕ
  stream : PeerStream

namespace PeerRun

/-- A connection that begins. -/
def start (id : PeerId) (stream : PeerStream) (now : ℕ) : PeerRun := ⟨⟨id, stream, none, none⟩, now, now, 0, false⟩

/-- The round is one of the connection: the actor has not stopped, the clock does not go back, and the round can end
as it does. -/
def Happens (s : Serde) (settings : PeerSettings) (r : PeerRun) (round : Round) : Prop :=
  r.stopped = false ∧ r.clock ≤ round.env.now ∧ round.env.now ≤ round.env.later ∧
    round.env.later ≤ round.env.sentAt ∧ round.env.sentAt ≤ round.handledAt ∧
    (r.loop.turn s settings round.env).isSome

instance (s : Serde) (settings : PeerSettings) (r : PeerRun) (round : Round) : Decidable (r.Happens s settings round) :=
  inferInstanceAs (Decidable (_ ∧ _))

/-- A round, and the handling of what comes out of it.  A message is noted when it is handled; signals of the mailbox
note nothing. -/
def next (s : Serde) (settings : PeerSettings) (r : PeerRun) (round : Round) : PeerRun :=
  if r.Happens s settings round then
    let keepalives := r.keepalives + (r.loop.sendsKeepalive settings round.env).toNat
    match r.loop.turn s settings round.env with
    | some (.again l) => { r with loop := l, clock := round.handledAt, keepalives := keepalives }
    | some (.done (.message _) l _) =>
        ⟨{ l with lastMessageReceived := some round.handledAt, stream := round.stream }, round.handledAt,
          round.handledAt, 0, false⟩
    | some (.done .mailbox l _) =>
        { r with loop := { l with stream := round.stream }, clock := round.handledAt, keepalives := keepalives }
    | _ => { r with stopped := true }
  else r

/-- The round disconnects the peer for its silence. -/
def Disconnects (s : Serde) (settings : PeerSettings) (r : PeerRun) (round : Round) : Prop :=
  r.loop.turn s settings round.env = some (.done .stop r.loop [.killPeer r.loop.id])

/-- **What a round should do**: disconnect the peer exactly when it has been silent for as long as it may, and send a
keep-alive only if it is the first of the silence. -/
def Sound (s : Serde) (settings : PeerSettings) (r : PeerRun) (round : Round) : Prop :=
  r.Happens s settings round →
    (r.Disconnects s settings round ↔ r.heard + settings.disconnectTimeout ≤ round.env.later) ∧
      (r.loop.sendsKeepalive settings round.env = true → r.keepalives = 0)

/-- **When a round does so**: a message of the peer has been handled; or the two readings of the clock are so far apart
that it is disconnected anyway; or the deadline is still to come, and the readings are too close for a keep-alive,
none can be sent, or none has been sent before them. -/
def Prompt (s : Serde) (settings : PeerSettings) (r : PeerRun) (round : Round) : Prop :=
  r.Happens s settings round →
    r.loop.lastMessageReceived ≠ none ∨ round.env.now + settings.disconnectTimeout ≤ round.env.later ∨
      round.env.later < r.heard + settings.disconnectTimeout ∧
        (round.env.later < round.env.now + settings.keepaliveTimeout ∨ round.env.sendOk = false ∨
          ∀ sent, r.loop.lastMessageSent = some sent → round.env.now ≤ sent)

/-- **The invariant of a connection**: what the loop notes is what has happened. -/
structure Faithful (r : PeerRun) : Prop where
  clock : r.heard ≤ r.clock
  received : r.loop.lastMessageReceived = none ∨ r.loop.lastMessageReceived = some r.heard
  sent : r.keepalives ≠ 0 → ∃ sent, r.loop.lastMessageSent = some sent ∧ r.heard ≤ sent
  silent : r.loop.lastMessageReceived = none → r.keepalives = 0 → r.loop.lastMessageSent = none

variable {s : Serde} {settings : PeerSettings} {r : PeerRun} {round : Round}

theorem faithful_start (id : PeerId) (stream : PeerStream) (now : ℕ) : (start id stream now).Faithful :=
  ⟨le_rfl, .inl rfl, fun h => absurd rfl h, fun _ _ => rfl⟩

/-- The peer is disconnected when the loop counts so long a silence. -/
theorem disconnects_iff (h : r.Happens s settings round) :
    r.Disconnects s settings round ↔ settings.disconnectTimeout ≤ r.loop.idle round.env := by
  obtain ⟨t, ht⟩ := Option.isSome_iff_exists.1 h.2.2.2.2.2
  rw [Disconnects, ht]
  rcases ReceiveLoop.turn_cases ht with ⟨hidle, rfl⟩ | ⟨hidle, ht⟩
  · exact iff_of_true rfl hidle
  · refine iff_of_false ?_ (Nat.not_le_of_lt hidle)
    rcases ht with rfl | ⟨stream, rfl | ⟨signal, rfl⟩⟩
    · exact nofun
    · exact nofun
    · simp

theorem sendsKeepalive_iff {env : TurnEnv} {l : ReceiveLoop} :
    l.sendsKeepalive settings env = true ↔
      l.idle env < settings.disconnectTimeout ∧ settings.keepaliveTimeout ≤ l.idle env ∧
        (∀ sent, l.lastMessageSent = some sent → sent < l.lastReceived env) ∧ env.sendOk = true := by
  rw [ReceiveLoop.sendsKeepalive, ReceiveLoop.keepaliveDue, ReceiveLoop.keepaliveSent]
  cases l.lastMessageSent with
  | none => simp [and_assoc]
  | some sent => simp [and_assoc]

/-- **One round does what it should exactly if it is prompt.** -/
theorem Faithful.sound_iff (h : r.Faithful) : r.Sound s settings round ↔ r.Prompt s settings round := by
  refine imp_congr_right fun hhappens => ?_
  have hclock := h.clock
  obtain ⟨-, hnow, hlater, -⟩ := id hhappens
  rw [disconnects_iff hhappens, sendsKeepalive_iff]
  rcases h.received with hnone | hsome
  · have hidle : r.loop.idle round.env = round.env.later - round.env.now := by
      rw [ReceiveLoop.idle, ReceiveLoop.lastReceived, hnone, Option.getD_none]
    have hlast : r.loop.lastReceived round.env = round.env.now := by
      rw [ReceiveLoop.lastReceived, hnone, Option.getD_none]
    rw [hidle, hlast, or_iff_right (not_not_intro hnone)]
    by_cases hapart : round.env.now + settings.disconnectTimeout ≤ round.env.later
    · refine iff_of_true ⟨?_, ?_⟩ (.inl hapart)
      · omega
      · rintro ⟨hlt, -⟩
        omega
    · rw [or_iff_right hapart]
      -- no keep-alive has been sent yet, or one was sent before this round
      cases hsent : r.loop.lastMessageSent with
      | none =>
          have hzero : r.keepalives = 0 := by
            by_contra hkeepalives
            obtain ⟨sent, hsome, -⟩ := h.sent hkeepalives
            rw [hsent] at hsome
            cases hsome
          simp only [hzero, implies_true, and_true, reduceCtorEq, false_imp_iff, or_true]
          omega
      | some sent =>
          have hkeepalives : r.keepalives ≠ 0 := by
            intro hzero
            rw [h.silent hnone hzero] at hsent
            cases hsent
          simp only [hkeepalives, Option.some.injEq, forall_eq', imp_false]
          cases round.env.sendOk <;> simp <;> omega
  · have hidle : r.loop.idle round.env = round.env.later - r.heard := by
      rw [ReceiveLoop.idle, ReceiveLoop.lastReceived, hsome, Option.getD_some]
    have hlast : r.loop.lastReceived round.env = r.heard := by
      rw [ReceiveLoop.lastReceived, hsome, Option.getD_some]
    have hmessage : r.loop.lastMessageReceived ≠ none := hsome ▸ Option.some_ne_none _
    refine iff_of_true ⟨?_, ?_⟩ (.inl hmessage)
    · rw [hidle]
      omega
    · rintro ⟨-, -, hunsent, -⟩
      by_contra hkeepalives
      obtain ⟨sent, hsent, hle⟩ := h.sent hkeepalives
      have hlt := hunsent sent hsent
      rw [hlast] at hlt
      omega

/-- The loop behind a round, when the peer is still as silent. -/
theorem Faithful.after (h : r.Faithful) (hhappens : r.Happens s settings round) (stream : PeerStream) :
    Faithful ⟨r.loop.after settings round.env stream, round.handledAt, r.heard,
      r.keepalives + (r.loop.sendsKeepalive settings round.env).toNat, r.stopped⟩ := by
  have hclock := h.clock
  have ⟨_, hnow, hlater, hsentAt, hhandledAt, _⟩ := hhappens
  cases hsends : r.loop.sendsKeepalive settings round.env with
  | true =>
      refine ⟨?_, h.received, fun _ => ?_, fun _ hzero => absurd hzero (Nat.succ_ne_zero _)⟩
      · dsimp only
        omega
      · rw [ReceiveLoop.after_of_sends hsends]
        exact ⟨round.env.sentAt, rfl, by dsimp only; omega⟩
  | false =>
      rw [ReceiveLoop.after_of_not_sends hsends]
      refine ⟨?_, h.received, h.sent, h.silent⟩
      dsimp only
      omega

/-- A round notes what happens. -/
theorem Faithful.next (h : r.Faithful) : (r.next s settings round).Faithful := by
  unfold PeerRun.next
  split
  · rename_i hhappens
    have hafter := h.after hhappens
    obtain ⟨t, ht⟩ := Option.isSome_iff_exists.1 hhappens.2.2.2.2.2
    rw [ht]
    rcases ReceiveLoop.turn_cases ht with ⟨hidle, rfl⟩ | ⟨hidle, rfl | ⟨stream, rfl | ⟨signal, rfl⟩⟩⟩
    · exact ⟨h.clock, h.received, h.sent, h.silent⟩
    · exact ⟨h.clock, h.received, h.sent, h.silent⟩
    · exact hafter stream
    · cases signal with
      | message m => exact ⟨le_rfl, .inr rfl, fun hne => absurd rfl hne, fun hnone => absurd hnone nofun⟩
      | mailbox => exact hafter round.stream
      | stop => exact ⟨h.clock, h.received, h.sent, h.silent⟩
  · exact h

end PeerRun

/-- **The rounds of a run are sound exactly if they are prompt.**  In every run of the loop, for all settings and all
readings of the clock, whatever the peer and the mailbox deliver: the peer is disconnected when it has been silent for as
long as it may and not before, with one keep-alive for a silence, if and only if no round comes after the deadline of
a peer that has never sent a message. -/
theorem silent_peers_disconnected (s : Serde) (settings : PeerSettings) (id : PeerId) (stream : PeerStream) (now : ℕ)
    (rounds : List Round) :
    System.Along (PeerRun.Sound s settings) (PeerRun.next s settings) (.start id stream now) rounds ↔
      System.Along (PeerRun.Prompt s settings) (PeerRun.next s settings) (.start id stream now) rounds :=
  System.along_congr (fun _ _ h => h.next) (fun _ _ h => h.sound_iff) rounds (PeerRun.faithful_start id stream now)

namespace Sample

/-- Twelve minutes after the connection began, nothing has been heard of the peer. -/
def lateRound : Round := ⟨ReceiveLoop.silent peerSettings [] 3, 3 * 240001000000, ⟨[], 0⟩⟩

end Sample

/-- **A peer that never says anything is kept.**  Twelve minutes after the connection began, three times as long as it
may be silent, the loop goes round again. -/
theorem silent_peer_kept :
    let r := PeerRun.start (.ofId Sample.announced) ⟨[], 0⟩ 0
    r.loop.turn Sample.serde Sample.peerSettings Sample.lateRound.env = some (.again r.loop) ∧
      r.heard + Sample.peerSettings.disconnectTimeout ≤ Sample.lateRound.env.later ∧
      ¬ System.Along (PeerRun.Sound Sample.serde Sample.peerSettings) (PeerRun.next Sample.serde Sample.peerSettings) r
        [Sample.lateRound] := by
  intro r
  have hmore : nextFrame maxFramePayloadLength [] = .more := by decide
  have hclock : Sample.lateRound.env.later = Sample.lateRound.env.now := rfl
  have hnone : r.loop.lastMessageReceived = none := rfl
  have hidle : r.loop.idle Sample.lateRound.env = 0 := by
    rw [ReceiveLoop.idle, ReceiveLoop.lastReceived, hnone, Option.getD_none, hclock, Nat.sub_self]
  have hturn : r.loop.turn Sample.serde Sample.peerSettings Sample.lateRound.env = some (.again r.loop) := by
    have hselect : r.loop.select Sample.serde Sample.lateRound.env = some (.again r.loop) := by
      have hcut : cut maxFramePayloadLength r.loop.stream.readBuffer = ([], []) :=
        cut_of_not_frame fun frame rest h => by cases hmore.symm.trans h
      have hskimmed : r.loop.skimmed = r.loop := by
        have hskim : ReceiveLoop.skim [] = [] :=
          ReceiveLoop.skim_of_not_frame fun frame rest h => by cases hmore.symm.trans h
        rw [ReceiveLoop.skimmed, show ReceiveLoop.skim r.loop.stream.readBuffer = [] from hskim]
        rfl
      have hsilent := ReceiveLoop.select_silent (s := Sample.serde) Sample.peerSettings 3 r.loop
        (by rw [hcut]; exact List.forall_mem_nil _)
      rwa [hskimmed] at hsilent
    have hdue : r.loop.keepaliveDue Sample.peerSettings Sample.lateRound.env = false := by
      rw [ReceiveLoop.keepaliveDue, hidle, decide_eq_false (by decide), Bool.false_and]
    rw [ReceiveLoop.turn, hidle, hdue, if_neg (by decide), if_neg Bool.false_ne_true, hselect]
  have hlate : r.heard + Sample.peerSettings.disconnectTimeout ≤ Sample.lateRound.env.later := by decide
  refine ⟨hturn, hlate, ?_⟩
  rintro ⟨hsound, -⟩
  have hhappens : r.Happens Sample.serde Sample.peerSettings Sample.lateRound :=
    ⟨rfl, by decide, by decide, by decide, by decide, by rw [hturn]; rfl⟩
  have hdisconnects := (hsound hhappens).1.2 hlate
  rw [PeerRun.Disconnects, hturn] at hdisconnects
  cases hdisconnects

end Tortillas
