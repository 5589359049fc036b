/-
**Two peer actors and the connection between them.**

`peer/actor.rs`: both ends of a connection run the same actor.  Each of them tells its torrent what
it hears, answers requests with what its torrent gives it, and keeps two flags for each direction:
whether it chokes the other end, whether it is interested in it, and what it has been told of the
same by the other end.  The flags of one end are a copy of those of the other, and the copy is late:
it is brought up to date by the messages that are still on their way.

A conversation is the two actors, the messages on their way in either direction, and what has been
heard, obeyed and told so far.  A step is a step of one actor; the messages it sends go to the end of
one queue, and the message it hears comes from the front of the other.  That a connection delivers
messages in this way is proved in `Connection`.  An actor learns the answers of its torrent, and
whether what it sends goes out, from a `PeerEnv`, so that the torrents and the network are not
restricted.

Main definitions:

* `Hears`, `Obeys` — what hearing a message, and obeying a command, comes to;
* `Party`, `Party.act` — an actor in its phase, and its steps;
* `Conversation`, `Conversation.step`, `conversationSystem` — both of them.

Main results:

* `hears_of_handle`, `obeys_perform` — **every way in which an actor goes on**;
* `Conversation.moves_of_step` — every way in which a conversation goes on;
* `views_agree` — **the views of the two ends agree up to what is on its way**.
-/

import Tortillas.WireRoundTrip
import Tortillas.Swarm

set_option relaxedAutoImplicit false
set_option autoImplicit false

namespace Tortillas

/-! ### What an actor says -/

namespace PeerActor

/-- What has been sent to the other end. -/
def said (a : PeerActor) : List PeerMessages :=
  a.outbox.filterMap fun
    | .send m => some m
    | .tell _ => none

/-- The actor before its next step. -/
def quiet (a : PeerActor) : PeerActor := { a with outbox := [] }

@[simp] theorem said_tell (a : PeerActor) (e : PeerEvent) : (a.tell e).said = a.said := by
  simp [tell, said]

@[simp] theorem said_send (a : PeerActor) (m : PeerMessages) :
    (a.send m true).said = a.said ++ [m] := by
  simp [send, said]

@[simp] theorem quiet_tell (a : PeerActor) (e : PeerEvent) : (a.tell e).quiet = a.quiet := rfl

@[simp] theorem quiet_send (a : PeerActor) (m : PeerMessages) (sent : Bool) :
    (a.send m sent).quiet = a.quiet := by
  cases sent <;> rfl

@[simp] theorem said_quiet (a : PeerActor) : a.quiet.said = [] := rfl

@[simp] theorem told_quiet (a : PeerActor) : a.quiet.told = [] := rfl

@[simp] theorem quiet_quiet (a : PeerActor) : a.quiet.quiet = a.quiet := rfl

/-- The requests a flush sends again. -/
def flushedRequests (env : PeerEnv) (a : PeerActor) : List PeerMessages :=
  (env.flushed.filter (· ∈ a.pendingBlockRequests)).map requestMessage

theorem flushBlockRequests_eq (env : PeerEnv) (a : PeerActor) :
    (a.flushBlockRequests env).quiet = a.quiet ∧
      (a.flushBlockRequests env).said = a.said ++ a.flushedRequests env ∧
      (a.flushBlockRequests env).told = a.told ∧ (a.flushBlockRequests env).id = a.id ∧
      (a.flushBlockRequests env).pieces = a.pieces := by
  unfold flushBlockRequests flushedRequests
  generalize env.flushed.filter (· ∈ a.pendingBlockRequests) = keys
  induction keys generalizing a with
  | nil => simp
  | cons key keys ih =>
      obtain ⟨hquiet, hsaid, htold, hid, hpieces⟩ := ih (a.send (requestMessage key) true)
      rw [List.foldl_cons]
      refine ⟨?_, ?_, ?_, ?_, ?_⟩
      · rw [hquiet, quiet_send]
      · simp [hsaid]
      · simp [htold]
      · simp [hid]
      · rw [hpieces]
        rfl

end PeerActor

/-- The messages two actors of this program exchange: neither starts an exchange of extended
messages, and the handshakes are over. -/
def PeerMessages.plain : PeerMessages → Bool
  | .extended _ _ _ | .handshake _ => false
  | _ => true

/-- What an actor says of its interest. -/
def interestMessage (interesting : Bool) : PeerMessages :=
  if interesting then .interested else .notInterested

/-- What `determine_interest` does to an actor and makes it say. -/
inductive Weighs (env : PeerEnv) (a : PeerActor) : PeerActor → List PeerMessages → Prop
  | unanswered (h : env.interestingPieces = none) : Weighs env a a []
  | answered {interesting : Bool} (h : env.interestingPieces = some interesting)
      (hsent : env.sent = true) :
      Weighs env a { a with amInterested := interesting } [interestMessage interesting]

theorem weighs_of_determineInterest {env : PeerEnv} {a b : PeerActor}
    (h : a.determineInterest env = some b) :
    ∃ ms, Weighs env a.quiet b.quiet ms ∧ b.said = a.said ++ ms ∧ b.told = a.told := by
  unfold PeerActor.determineInterest at h
  cases hask : env.interestingPieces with
  | none =>
      simp only [hask, Option.some.injEq] at h
      subst h
      exact ⟨[], .unanswered hask, by simp, rfl⟩
  | some interesting =>
      simp only [hask] at h
      split at h
      · rename_i hsent
        simp only [Option.some.injEq] at h
        subst h
        refine ⟨[interestMessage interesting], .answered hask hsent, ?_, ?_⟩
        · exact PeerActor.said_send a _
        · exact PeerActor.told_send a _ true
      · cases h

/-- **What hearing a message comes to**: the actor behind it, what it says and what it tells its
torrent. -/
inductive Hears (env : PeerEnv) (a : PeerActor) :
    PeerMessages → PeerActor → List PeerMessages → List PeerEvent → Prop
  | taken {index offset : UInt32} {data : Bytes}
      (h : (index.toNat, offset.toNat, data.length) ∈ a.pendingBlockRequests) :
      Hears env a (.piece index offset data)
        { a with pendingBlockRequests :=
            a.pendingBlockRequests.erase (index.toNat, offset.toNat, data.length) }
        [] [.incomingPiece a.id index.toNat offset.toNat data]
  | unwanted {index offset : UInt32} {data : Bytes}
      (h : (index.toNat, offset.toNat, data.length) ∉ a.pendingBlockRequests) :
      Hears env a (.piece index offset data) a [] []
  | choke : Hears env a .choke { a with peerChoking := true } [] []
  | unchoke : Hears env a .unchoke { a with peerChoking := false } (a.flushedRequests env)
      [.peerReady a.id a.pieces]
  | interested : Hears env a .interested { a with peerInterested := true } [] []
  | notInterested : Hears env a .notInterested { a with peerInterested := false } [] []
  | keepAlive : Hears env a .keepAlive a [] []
  | beyond {index : UInt32} (h : a.pieces.length ≤ index.toNat) : Hears env a (.have index) a [] []
  | known {index : UInt32} (h : a.pieces.getD index.toNat false = true) :
      Hears env a (.have index) { a with pieces := a.pieces.set index.toNat true } [] []
  | news {index : UInt32} {b : PeerActor} {ms : List PeerMessages}
      (h : a.pieces.getD index.toNat false = false) (hlt : index.toNat < a.pieces.length)
      (hb : Weighs env { a with pieces := a.pieces.set index.toNat true } b ms) :
      Hears env a (.have index) b ms []
  | pieces {bits : List Bool} {b : PeerActor} {ms : List PeerMessages}
      (hb : Weighs env { a with pieces := bits } b ms) :
      Hears env a (.bitfield bits) b ms [.peerReady a.id bits]
  | choked {index offset length : UInt32} (h : a.amChoking = true) :
      Hears env a (.request index offset length) a [] []
  | invalid {index offset length : UInt32} (h : length = 0 ∨ blockSize < length.toNat) :
      Hears env a (.request index offset length) a [] []
  | refused {index offset length : UInt32} (h : env.requestPiece = some none) :
      Hears env a (.request index offset length) a [] []
  | served {index offset length : UInt32} {data : Bytes} (h : a.amChoking = false)
      (hlength : 0 < length.toNat ∧ length.toNat ≤ blockSize)
      (hdata : env.requestPiece = some (some data)) (hsent : env.sent = true) :
      Hears env a (.request index offset length) a [.piece index offset data] []
  | cancelled {index offset length : UInt32} :
      Hears env a (.cancel index offset length)
        { a with pendingBlockRequests :=
            a.pendingBlockRequests.erase (index.toNat, offset.toNat, length.toNat) } [] []

/-- **Every way in which an actor goes on when it hears a message.** -/
theorem hears_of_handle {env : PeerEnv} {a b : PeerActor} {m : PeerMessages}
    (h : a.quiet.handle env m = some b) (hm : m.plain = true) :
    Hears env a.quiet m b.quiet b.said b.told := by
  cases m with
  | piece index offset data =>
      simp only [PeerActor.handle] at h
      split at h
      · rename_i hkey
        cases h
        exact .taken hkey
      · rename_i hkey
        cases h
        exact .unwanted hkey
  | choke =>
      cases h
      exact .choke
  | unchoke =>
      cases h
      obtain ⟨hquiet, hsaid, htold, hid, hpieces⟩ :=
        PeerActor.flushBlockRequests_eq env { a.quiet with peerChoking := false }
      rw [PeerActor.notifyReady, PeerActor.quiet_tell, PeerActor.said_tell, PeerActor.told_tell, hquiet,
        hsaid, htold, hid, hpieces]
      exact .unchoke
  | interested =>
      cases h
      exact .interested
  | notInterested =>
      cases h
      exact .notInterested
  | keepAlive =>
      cases h
      exact .keepAlive
  | «have» index =>
      simp only [PeerActor.handle] at h
      split at h
      · rename_i hlt
        split at h
        · rename_i hset
          cases h
          exact .known hset
        · rename_i hset
          obtain ⟨ms, hweighs, hsaid, htold⟩ := weighs_of_determineInterest h
          rw [hsaid, htold]
          exact .news (by simpa using hset) hlt hweighs
      · rename_i hle
        cases h
        exact .beyond (Nat.le_of_not_lt hle)
  | bitfield bits =>
      obtain ⟨c, hweigh, hb⟩ := Option.map_eq_some_iff.1 h
      obtain ⟨ms, hweighs, hsaid, htold⟩ := weighs_of_determineInterest hweigh
      have hcore : c.id = a.id ∧ c.pieces = bits := by
        generalize hc : c.quiet = c' at hweighs
        have hid : c.id = c'.id := by rw [← hc]; rfl
        have hpieces : c.pieces = c'.pieces := by rw [← hc]; rfl
        rw [hid, hpieces]
        cases hweighs <;> exact ⟨rfl, rfl⟩
      subst hb
      rw [PeerActor.notifyReady, PeerActor.quiet_tell, PeerActor.said_tell, PeerActor.told_tell, hsaid,
        htold, hcore.1, hcore.2]
      exact .pieces hweighs
  | request index offset length =>
      simp only [PeerActor.handle] at h
      split at h
      · rename_i hchoking
        cases h
        exact .choked hchoking
      rename_i hchoking
      split at h
      · rename_i hlength
        cases h
        exact .invalid hlength
      rename_i hlength
      split at h
      · cases h
      · rename_i hnone
        cases h
        exact .refused hnone
      · rename_i data hdata
        split at h
        · rename_i hsent
          cases h
          rw [PeerActor.quiet_send, PeerActor.said_send, PeerActor.told_send]
          refine .served (by simpa using hchoking) ?_ hdata hsent
          rw [not_or, Nat.not_lt] at hlength
          refine ⟨Nat.pos_of_ne_zero fun hzero => hlength.1 ?_, hlength.2⟩
          exact UInt32.toNat_inj.1 hzero
        · cases h
  | cancel index offset length =>
      cases h
      exact .cancelled
  | extended extendedId message metadata => cases hm
  | handshake h => cases hm

/-- The handlers of these messages ask the torrent, and panic when they cannot go on. -/
def PeerMessages.asksTorrent : PeerMessages → Bool
  | .have _ | .bitfield _ | .request _ _ _ => true
  | _ => false

theorem asksTorrent_of_handle {env : PeerEnv} {a : PeerActor} {m : PeerMessages}
    (h : a.handle env m = none) (hm : m.plain = true) : m.asksTorrent = true := by
  cases m with
  | piece index offset data =>
      simp only [PeerActor.handle] at h
      split at h <;> cases h
  | extended extendedId message metadata => cases hm
  | «have» index => rfl
  | bitfield bits => rfl
  | request index offset length => rfl
  | _ => cases h

/-- **What obeying a command comes to.** -/
inductive Obeys (env : PeerEnv) (a : PeerActor) :
    PeerCommand → PeerActor → List PeerMessages → List PeerEvent → Prop
  | rejected {index start length : ℕ} (h : a.pieces[index]? ≠ some true ∨ env.sent = false) :
      Obeys env a (.needPiece index start length) a [] [.peerRejectedRequest a.id index start]
  | queued {index start length : ℕ} (h : a.pieces[index]? = some true) (hchoked : a.peerChoking = true) :
      Obeys env a (.needPiece index start length)
        { a with pendingBlockRequests := insert (index, start, length) a.pendingBlockRequests } [] []
  | requested {index start length : ℕ} (h : a.pieces[index]? = some true)
      (hchoked : a.peerChoking = false) :
      Obeys env a (.needPiece index start length)
        { a with pendingBlockRequests := insert (index, start, length) a.pendingBlockRequests }
        [PeerActor.requestMessage (index, start, length)] []
  | notPending {index start length : ℕ} (h : (index, start, length) ∉ a.pendingBlockRequests) :
      Obeys env a (.cancelPiece index start length) a [] []
  | cancelled {index start length : ℕ} {ms : List PeerMessages}
      (hms : ms = [] ∨ ms =
        [.cancel (UInt32.ofNat index) (UInt32.ofNat start) (UInt32.ofNat length)]) :
      Obeys env a (.cancelPiece index start length)
        { a with pendingBlockRequests := a.pendingBlockRequests.erase (index, start, length) } ms []
  | unchanged {choked : Bool} (h : a.amChoking = choked ∨ env.sent = false) :
      Obeys env a (.setChoked choked) a [] []
  | changed {choked : Bool} (h : a.amChoking ≠ choked) :
      Obeys env a (.setChoked choked) { a with amChoking := choked }
        [if choked then .choke else .unchoke] []
  | announces {command : PeerCommand} {m : PeerMessages} {ms : List PeerMessages}
      (h : (∃ piece, command = .have piece ∧ m = .have (UInt32.ofNat piece)) ∨
        ∃ bits, command = .haveInfoDict bits ∧ m = .bitfield bits)
      (hms : ms = [] ∨ ms = [m]) : Obeys env a command a ms []

theorem said_send_of (a : PeerActor) (m : PeerMessages) (sent : Bool) :
    (a.send m sent).said = a.said ∨ (a.send m sent).said = a.said ++ [m] := by
  cases sent with
  | true => exact .inr (PeerActor.said_send a m)
  | false => exact .inl rfl

/-- **Every way in which an actor goes on when it gets a command.** -/
theorem obeys_perform (env : PeerEnv) (a : PeerActor) (command : PeerCommand) :
    Obeys env a.quiet command (a.quiet.perform env command).quiet (a.quiet.perform env command).said
      (a.quiet.perform env command).told := by
  cases command with
  | needPiece index start length =>
      simp only [PeerActor.perform, PeerActor.needPiece]
      split
      · rename_i hpiece
        exact .rejected (.inl hpiece)
      rename_i hpiece
      rw [not_not] at hpiece
      split
      · rename_i hchoked
        exact .queued hpiece hchoked
      rename_i hchoked
      split
      · exact .requested hpiece (by simpa using hchoked)
      · rename_i hsent
        exact .rejected (.inr (by simpa using hsent))
  | cancelPiece index start length =>
      simp only [PeerActor.perform, PeerActor.cancelPiece]
      split
      · rename_i hkey
        exact .notPending hkey
      · rw [PeerActor.quiet_send, PeerActor.told_send]
        exact .cancelled (said_send_of _ _ _)
  | setChoked choked =>
      simp only [PeerActor.perform, PeerActor.setChoked]
      split
      · rename_i hsame
        exact .unchanged (.inl hsame)
      rename_i hother
      split
      · exact .changed hother
      · rename_i hsent
        exact .unchanged (.inr (by simpa using hsent))
  | «have» piece =>
      simp only [PeerActor.perform]
      rw [PeerActor.quiet_send, PeerActor.told_send]
      exact .announces (.inl ⟨piece, rfl, rfl⟩) (said_send_of _ _ _)
  | haveInfoDict bits =>
      simp only [PeerActor.perform]
      rw [PeerActor.quiet_send, PeerActor.told_send]
      exact .announces (.inr ⟨bits, rfl, rfl⟩) (said_send_of _ _ _)

/-! ### The two ends -/

/-- An actor, and where it is in its life. -/
structure Party where
  actor : PeerActor
  phase : Phase

/-- What happens at one end. -/
inductive PartyInput
  | start (bitfield : List Bool)
  | startFailed
  | command (command : PeerCommand) (env : PeerEnv)
  | hear (message : PeerMessages) (env : PeerEnv)
  | keepAlive
  | timeout
  | stop

/-- What a step leaves: the party, what it says and what it tells its torrent. -/
structure Turned where
  party : Party
  said : List PeerMessages
  told : List PeerEvent

/-- The actor goes on with what a handler has left. -/
def Party.goesOn (p : Party) (a : PeerActor) : Turned := ⟨{ p with actor := a.quiet }, a.said, a.told⟩

/-- A step at one end; `none` when it cannot happen. -/
def Party.act (p : Party) : PartyInput → Option Turned
  -- an empty bitfield is not sent
  | .start bitfield =>
      if p.phase = .starting then
        some ⟨{ p with phase := .running }, if bitfield = [] then [] else [.bitfield bitfield],
          [.peerReady p.actor.id []]⟩
      else none
  | .startFailed => if p.phase = .starting then some ⟨{ p with phase := .stopped }, [], []⟩ else none
  | .command command env =>
      if p.phase = .running then some (p.goesOn (p.actor.quiet.perform env command)) else none
  | .hear m env =>
      if p.phase = .running then
        match p.actor.quiet.handle env m with
        | some a => some (p.goesOn a)
        -- a panic ends the actor
        | none => some ⟨{ p with phase := .stopped }, [], [.killPeer p.actor.id]⟩
      else none
  | .keepAlive => if p.phase = .running then some ⟨p, [.keepAlive], []⟩ else none
  | .timeout =>
      if p.phase = .running then some ⟨{ p with phase := .stopping }, [], [.killPeer p.actor.id]⟩
      else none
  | .stop =>
      if p.phase = .running ∨ p.phase = .stopping then
        some ⟨{ p with phase := .stopped }, [], [.killPeer p.actor.id]⟩
      else none

/-- **Every step at one end**: it does not touch the actor, or the actor obeys or hears. -/
inductive Party.Acts (p : Party) : PartyInput → Turned → Prop
  | starts {bitfield ms : List _} {phase : Phase}
      (hms : ms = if bitfield = [] then [] else [.bitfield bitfield]) :
      Acts p (.start bitfield) ⟨{ p with phase := phase }, ms, [.peerReady p.actor.id []]⟩
  | obeys {command : PeerCommand} {env : PeerEnv} {a : PeerActor} {ms : List PeerMessages}
      {es : List PeerEvent} (h : Obeys env p.actor.quiet command a ms es) :
      Acts p (.command command env) ⟨{ p with actor := a }, ms, es⟩
  | hears {m : PeerMessages} {env : PeerEnv} {a : PeerActor} {ms : List PeerMessages}
      {es : List PeerEvent} (h : Hears env p.actor.quiet m a ms es) :
      Acts p (.hear m env) ⟨{ p with actor := a }, ms, es⟩
  | panics {m : PeerMessages} {env : PeerEnv} (h : m.asksTorrent = true)
      (hnone : p.actor.quiet.handle env m = none) :
      Acts p (.hear m env) ⟨{ p with phase := .stopped }, [], [.killPeer p.actor.id]⟩
  | keepsAlive : Acts p .keepAlive ⟨p, [.keepAlive], []⟩
  | ends {i : PartyInput} {phase : Phase} {es : List PeerEvent}
      (hi : i = .startFailed ∨ i = .timeout ∨ i = .stop)
      (hes : es = [] ∨ es = [.killPeer p.actor.id]) : Acts p i ⟨{ p with phase := phase }, [], es⟩

theorem Party.acts_of_act {p : Party} {i : PartyInput} {t : Turned} (h : p.act i = some t)
    (hplain : ∀ m env, i = .hear m env → m.plain = true) : p.Acts i t := by
  cases i with
  | start bitfield =>
      simp only [act] at h
      split at h
      · cases h
        exact .starts rfl
      · cases h
  | startFailed =>
      simp only [act] at h
      split at h
      · cases h
        exact .ends (.inl rfl) (.inl rfl)
      · cases h
  | command command env =>
      simp only [act] at h
      split at h
      · cases h
        exact .obeys (obeys_perform env p.actor command)
      · cases h
  | hear m env =>
      simp only [act] at h
      split at h
      · split at h
        · rename_i a ha
          cases h
          exact .hears (hears_of_handle ha (hplain m env rfl))
        · rename_i hnone
          cases h
          exact .panics (asksTorrent_of_handle hnone (hplain m env rfl)) hnone
      · cases h
  | keepAlive =>
      simp only [act] at h
      split at h
      · cases h
        exact .keepsAlive
      · cases h
  | timeout =>
      simp only [act] at h
      split at h
      · cases h
        exact .ends (.inr (.inl rfl)) (.inr rfl)
      · cases h
  | stop =>
      simp only [act] at h
      split at h
      · cases h
        exact .ends (.inr (.inr rfl)) (.inr rfl)
      · cases h

/-! ### The conversation -/

inductive Side
  | left | right
  deriving DecidableEq, Repr

def Side.opposite : Side → Side
  | .left => .right
  | .right => .left

@[simp] theorem Side.opposite_opposite (side : Side) : side.opposite.opposite = side := by
  cases side <;> rfl

theorem Side.opposite_ne (side : Side) : side.opposite ≠ side := by
  cases side <;> simp [Side.opposite]

theorem Side.eq_or_eq_opposite (side other : Side) : other = side ∨ other = side.opposite := by
  cases side <;> cases other <;> simp [Side.opposite]

/-- The two ends of a connection, and what has passed between them. -/
structure Conversation where
  party : Side → Party
  /-- What a side has said and the other has not heard. -/
  wire : Side → List PeerMessages
  heard : Side → List PeerMessages
  obeyed : Side → List PeerCommand
  told : Side → List PeerEvent

/-- What one side does next. -/
inductive SideInput
  | start (bitfield : List Bool)
  | startFailed
  | command (command : PeerCommand) (env : PeerEnv)
  | receive (env : PeerEnv)
  | keepAlive
  | timeout
  | stop

/-- What this is at one end, where this message comes next.  A bitfield arrives padded to whole
bytes. -/
def SideInput.partyInput (next : Option PeerMessages) : SideInput → Option PartyInput
  | .start bitfield => some (.start bitfield)
  | .startFailed => some .startFailed
  | .command order env => some (.command order env)
  | .receive env => next.map fun m => .hear m.padded env
  | .keepAlive => some .keepAlive
  | .timeout => some .timeout
  | .stop => some .stop

/-- The message that is heard. -/
def PartyInput.heard : PartyInput → List PeerMessages
  | .hear m _ => [m]
  | _ => []

/-- The command that is obeyed. -/
def PartyInput.obeyed : PartyInput → List PeerCommand
  | .command order _ => [order]
  | _ => []

namespace Conversation

/-- Everything a side has said, as the other one hears it. -/
def said (s : Conversation) (side : Side) : List PeerMessages :=
  s.heard side.opposite ++ (s.wire side).map PeerMessages.padded

/-- What a step at one end leaves. -/
def turned (s : Conversation) (side : Side) (i : PartyInput) (t : Turned) : Conversation where
  party := Function.update s.party side t.party
  wire := fun other =>
    if other = side then s.wire side ++ t.said else (s.wire other).drop i.heard.length
  heard := Function.update s.heard side (s.heard side ++ i.heard)
  obeyed := Function.update s.obeyed side (s.obeyed side ++ i.obeyed)
  told := Function.update s.told side (s.told side ++ t.told)

/-- A step of the conversation; `none` when it cannot happen. -/
def step (s : Conversation) (side : Side) (input : SideInput) : Option Conversation :=
  (input.partyInput (s.wire side.opposite).head?).bind fun i =>
    ((s.party side).act i).map (s.turned side i)

end Conversation

/-- The conversation of two actors that have been spawned for the ends of a new connection. -/
def conversationSystem (id : Side → PeerId) : System Conversation (Side × SideInput) where
  init s := s = ⟨fun side => ⟨PeerActor.new (id side), .starting⟩, fun _ => [], fun _ => [],
    fun _ => [], fun _ => []⟩
  step s i t := s.step i.1 i.2 = some t

namespace Conversation

section Turned

variable (s : Conversation) (side : Side) (i : PartyInput) (t : Turned)

@[simp] theorem turned_party_self : (s.turned side i t).party side = t.party :=
  Function.update_self ..

@[simp] theorem turned_party_opposite :
    (s.turned side i t).party side.opposite = s.party side.opposite :=
  Function.update_of_ne side.opposite_ne ..

@[simp] theorem turned_wire_self : (s.turned side i t).wire side = s.wire side ++ t.said := by
  simp [turned]

@[simp] theorem turned_wire_opposite :
    (s.turned side i t).wire side.opposite = (s.wire side.opposite).drop i.heard.length := by
  simp [turned, side.opposite_ne]

@[simp] theorem turned_heard_self : (s.turned side i t).heard side = s.heard side ++ i.heard :=
  Function.update_self ..

@[simp] theorem turned_heard_opposite :
    (s.turned side i t).heard side.opposite = s.heard side.opposite :=
  Function.update_of_ne side.opposite_ne ..

@[simp] theorem turned_obeyed_self : (s.turned side i t).obeyed side = s.obeyed side ++ i.obeyed :=
  Function.update_self ..

@[simp] theorem turned_obeyed_opposite :
    (s.turned side i t).obeyed side.opposite = s.obeyed side.opposite :=
  Function.update_of_ne side.opposite_ne ..

@[simp] theorem turned_told_self : (s.turned side i t).told side = s.told side ++ t.told :=
  Function.update_self ..

@[simp] theorem turned_told_opposite :
    (s.turned side i t).told side.opposite = s.told side.opposite :=
  Function.update_of_ne side.opposite_ne ..

end Turned

/-- **What a step of the conversation is**: a step at one end, which hears at most the message that
comes next. -/
structure Moves (s : Conversation) (side : Side) (i : PartyInput) (t : Turned) : Prop where
  act : (s.party side).act i = some t
  next : i.heard = [] ∨
    ∃ m rest, s.wire side.opposite = m :: rest ∧ i.heard = [m.padded]

/-- **Every way in which a conversation goes on.** -/
theorem moves_of_step {s u : Conversation} {side : Side} {input : SideInput}
    (h : s.step side input = some u) :
    ∃ i t, input.partyInput (s.wire side.opposite).head? = some i ∧ s.Moves side i t ∧
      u = s.turned side i t := by
  obtain ⟨i, hi, hmap⟩ := Option.bind_eq_some_iff.1 h
  obtain ⟨t, hact, rfl⟩ := Option.map_eq_some_iff.1 hmap
  refine ⟨i, t, hi, ⟨hact, ?_⟩, rfl⟩
  cases input with
  | receive env =>
      cases hwire : s.wire side.opposite with
      | nil => simp [SideInput.partyInput, hwire] at hi
      | cons m rest =>
          simp only [SideInput.partyInput, hwire, List.head?_cons, Option.map_some, Option.some.injEq] at hi
          subst hi
          exact .inr ⟨m, rest, rfl, rfl⟩
  | _ =>
      simp only [SideInput.partyInput, Option.some.injEq] at hi
      subst hi
      exact .inl rfl

/-- What the wire of the other side carries, before a step and behind it. -/
theorem Moves.wire_opposite {s : Conversation} {side : Side} {i : PartyInput} {t : Turned}
    (h : s.Moves side i t) :
    (s.wire side.opposite).map PeerMessages.padded =
      i.heard ++ ((s.turned side i t).wire side.opposite).map PeerMessages.padded := by
  rw [turned_wire_opposite]
  rcases h.next with hnone | ⟨m, rest, hwire, hheard⟩
  · simp [hnone]
  · simp [hwire, hheard]

/-- A step adds to what its side has said. -/
@[simp] theorem said_turned_self (s : Conversation) (side : Side) (i : PartyInput) (t : Turned) :
    (s.turned side i t).said side = s.said side ++ t.said.map PeerMessages.padded := by
  simp [said]

/-- It leaves what the other one has said, and takes from what is on its way. -/
theorem Moves.said_opposite {s : Conversation} {side : Side} {i : PartyInput} {t : Turned}
    (h : s.Moves side i t) : (s.turned side i t).said side.opposite = s.said side.opposite := by
  rw [said, said, Side.opposite_opposite, turned_heard_self, h.wire_opposite, List.append_assoc]

/-- Nothing has been said but what two actors of this program exchange. -/
def Plain (s : Conversation) : Prop := ∀ side, ∀ m ∈ s.said side, m.plain = true

@[simp] theorem plain_padded (m : PeerMessages) : m.padded.plain = m.plain := by
  cases m <;> rfl

theorem Moves.acts {s : Conversation} {side : Side} {i : PartyInput} {t : Turned}
    (h : s.Moves side i t) (hs : s.Plain) : (s.party side).Acts i t := by
  refine Party.acts_of_act h.act ?_
  rintro m env rfl
  refine hs side.opposite m ?_
  rw [said, h.wire_opposite]
  simp [PartyInput.heard]

end Conversation

/-! ### What is said -/

@[simp] theorem plain_interestMessage (interesting : Bool) :
    (interestMessage interesting).plain = true := by
  cases interesting <;> rfl

theorem Weighs.plain {env : PeerEnv} {a b : PeerActor} {ms : List PeerMessages}
    (h : Weighs env a b ms) : ∀ m ∈ ms, m.plain = true := by
  cases h <;> simp

/-- What an actor says by itself is neither an extended message nor a handshake. -/
theorem Party.Acts.plain {p : Party} {i : PartyInput} {t : Turned} (h : p.Acts i t) :
    ∀ m ∈ t.said, m.plain = true := by
  cases h with
  | @starts bitfield ms phase hms =>
      by_cases hbits : bitfield = []
      · simp [hms, hbits]
      · simp [hms, hbits, PeerMessages.plain]
  | obeys h =>
      cases h with
      | cancelled hms => rcases hms with rfl | rfl <;> simp [PeerMessages.plain]
      | @changed choked h => cases choked <;> simp [PeerMessages.plain]
      | announces h hms =>
          rcases hms with rfl | rfl
          · simp
          · rcases h with ⟨piece, -, rfl⟩ | ⟨bits, -, rfl⟩ <;> simp [PeerMessages.plain]
      | _ => simp [PeerMessages.plain, PeerActor.requestMessage]
  | hears h =>
      cases h with
      | unchoke =>
          intro m hm
          obtain ⟨key, -, rfl⟩ := List.mem_map.1 hm
          rfl
      | news h hlt hb => exact hb.plain
      | pieces hb => exact hb.plain
      | _ => simp [PeerMessages.plain]
  | keepsAlive => simp [PeerMessages.plain]
  | _ => simp

/-! ### Views -/

/-- Whether an actor chokes the other end and is interested in it. -/
@[ext] structure View where
  choking : Bool
  interested : Bool
  deriving DecidableEq, Repr

/-- What is seen of the other end behind a message. -/
def View.hear (v : View) : PeerMessages → View
  | .choke => { v with choking := true }
  | .unchoke => { v with choking := false }
  | .interested => { v with interested := true }
  | .notInterested => { v with interested := false }
  | _ => v

/-- How an actor stands towards the other end. -/
def PeerActor.stance (a : PeerActor) : View := ⟨a.amChoking, a.amInterested⟩

/-- How the other end stands, as far as the actor has heard. -/
def PeerActor.view (a : PeerActor) : View := ⟨a.peerChoking, a.peerInterested⟩

@[simp] theorem View.hear_padded (v : View) (m : PeerMessages) : v.hear m.padded = v.hear m := by
  cases m <;> rfl

theorem View.foldl_padded (v : View) (ms : List PeerMessages) :
    (ms.map PeerMessages.padded).foldl View.hear v = ms.foldl View.hear v := by
  simp only [List.foldl_map, hear_padded]

theorem View.foldl_flushedRequests (v : View) (env : PeerEnv) (a : PeerActor) :
    (a.flushedRequests env).foldl View.hear v = v := by
  unfold PeerActor.flushedRequests
  generalize env.flushed.filter (· ∈ a.pendingBlockRequests) = keys
  induction keys with
  | nil => rfl
  | cons key keys ih => exact ih

theorem Weighs.stance {env : PeerEnv} {a b : PeerActor} {ms : List PeerMessages}
    (h : Weighs env a b ms) : ms.foldl View.hear a.stance = b.stance ∧ b.view = a.view := by
  cases h with
  | unanswered h => exact ⟨rfl, rfl⟩
  | @answered interesting h hsent => cases interesting <;> exact ⟨rfl, rfl⟩

/-- **An actor says how it stands**: what it says takes its stance from before the step to the one
behind it. -/
theorem Party.Acts.stance {p : Party} {i : PartyInput} {t : Turned} (h : p.Acts i t) :
    t.said.foldl View.hear p.actor.stance = t.party.actor.stance := by
  cases h with
  | @starts bitfield ms phase hms =>
      subst hms
      by_cases hbits : bitfield = [] <;> simp [hbits, View.hear]
  | obeys h =>
      cases h with
      | cancelled hms => rcases hms with rfl | rfl <;> rfl
      | @changed choked h => cases choked <;> rfl
      | announces h hms =>
          rcases hms with rfl | rfl
          · rfl
          · rcases h with ⟨piece, -, rfl⟩ | ⟨bits, -, rfl⟩ <;> rfl
      | _ => rfl
  | hears h =>
      cases h with
      | unchoke => exact View.foldl_flushedRequests _ _ _
      | news h hlt hb => exact hb.stance.1
      | pieces hb => exact hb.stance.1
      | _ => rfl
  | _ => rfl

/-- What an actor sees of the other end is what it hears. -/
theorem Party.Acts.view {p : Party} {i : PartyInput} {t : Turned} (h : p.Acts i t) :
    t.party.actor.view = i.heard.foldl View.hear p.actor.view := by
  cases h with
  | obeys h => cases h <;> rfl
  | hears h =>
      cases h with
      | news h hlt hb => exact hb.stance.2
      | pieces hb => exact hb.stance.2
      | _ => rfl
  | @panics m env h hnone => cases m <;> first | rfl | cases h
  | ends hi => rcases hi with rfl | rfl | rfl <;> rfl
  | _ => rfl

namespace Conversation

/-- What a side sees of the other, up to what is on its way. -/
def ViewsAgree (s : Conversation) : Prop :=
  ∀ side : Side,
    (s.wire side).foldl View.hear (s.party side.opposite).actor.view = (s.party side).actor.stance

theorem ViewsAgree.turned {s : Conversation} {side : Side} {i : PartyInput} {t : Turned}
    (h : s.ViewsAgree) (hmoves : s.Moves side i t) (hs : s.Plain) :
    (s.turned side i t).ViewsAgree := by
  have hacts := hmoves.acts hs
  intro other
  rcases side.eq_or_eq_opposite other with rfl | rfl
  · rw [turned_wire_self, turned_party_opposite, turned_party_self, List.foldl_append, h other,
      hacts.stance]
  · have hopposite := h side.opposite
    rw [Side.opposite_opposite] at hopposite
    rw [Side.opposite_opposite, turned_party_self, turned_party_opposite, ← hopposite,
      ← View.foldl_padded _ (s.wire side.opposite), hmoves.wire_opposite, List.foldl_append,
      View.foldl_padded, hacts.view]

variable {id : Side → PeerId} {G : Conversation → Side × SideInput → Prop}

theorem plain_of_reach {s : Conversation} (h : (conversationSystem id).Reach G s) : s.Plain := by
  refine h.invariant (I := Plain) ?_ ?_
  · rintro s rfl side m hm
    simp [said] at hm
  · rintro s ⟨side, input⟩ u hs - hstep
    obtain ⟨i, t, -, hmoves, rfl⟩ := moves_of_step hstep
    intro other m hm
    rcases side.eq_or_eq_opposite other with rfl | rfl
    · rw [said_turned_self] at hm
      rcases List.mem_append.1 hm with hm | hm
      · exact hs other m hm
      · obtain ⟨m', hm', rfl⟩ := List.mem_map.1 hm
        rw [plain_padded]
        exact (hmoves.acts hs).plain m' hm'
    · rw [hmoves.said_opposite] at hm
      exact hs side.opposite m hm

theorem viewsAgree_of_reach {s : Conversation} (h : (conversationSystem id).Reach G s) :
    s.ViewsAgree := by
  refine h.strengthen (fun s hs => plain_of_reach hs) ?_ ?_
  · rintro s rfl side
    rfl
  · rintro s ⟨side, input⟩ u hplain hs - hstep
    obtain ⟨i, t, -, hmoves, rfl⟩ := moves_of_step hstep
    exact hs.turned hmoves hplain

end Conversation

/-- **The views of the two ends agree up to what is on its way**: in every state of every run, the
messages a side has sent and the other has not heard take what the other sees of it (whether it is
choked, whether the side is interested) to how the side stands, whatever the torrents command and
answer and whatever fails; the two are the same when nothing is on its way.  Nothing a side has ever
said is an extended message or a handshake, so that two actors never exchange metadata. -/
theorem views_agree (id : Side → PeerId) (s : Conversation)
    (h : (conversationSystem id).Reach (fun _ _ => True) s) (side : Side) :
    (s.wire side).foldl View.hear (s.party side.opposite).actor.view =
        (s.party side).actor.stance ∧
      (s.wire side = [] → (s.party side.opposite).actor.view = (s.party side).actor.stance) ∧
      ∀ m ∈ s.said side, m.plain = true := by
  have hview := Conversation.viewsAgree_of_reach h side
  refine ⟨hview, fun hwire => ?_, Conversation.plain_of_reach h side⟩
  rw [hwire] at hview
  exact hview

namespace Sample

/-- What the actor of one end learns: everything it sends goes out, its torrent is not interested in
anything and gives nothing away. -/
def quietEnv : PeerEnv := ⟨true, [], some false, some false, some none⟩

/-- The left end chokes no more; the right one has not heard of it. -/
def unchoking : List (Side × SideInput) :=
  [(.left, .start [true]), (.right, .start []), (.right, .receive quietEnv),
    (.left, .command (.setChoked false) quietEnv)]

end Sample

/-- An unchoke on its way. -/
theorem views_agree_sample :
    ∃ s, (conversationSystem fun _ => .ofId Sample.announced).Reach (fun _ _ => True) s ∧
      (s.party .right).actor.view.choking = true ∧
      (s.wire .left).foldl View.hear (s.party .right).actor.view = (s.party .left).actor.stance := by
  obtain ⟨s, hreach, hs⟩ := System.Reach.exists_foldlM
    (S := conversationSystem fun _ => .ofId Sample.announced) (f := fun s i => s.step i.1 i.2)
    (fun _ _ _ h => h) (.init rfl) Sample.unchoking
    (P := fun s => (s.party .right).actor.view.choking) rfl
  exact ⟨s, hreach, hs, (views_agree _ s hreach .left).1⟩

end Tortillas
