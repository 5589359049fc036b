/-
**The receive loop of a peer actor.**

`PeerActor::next` goes round a loop: it looks at how long the peer has been silent, stops or sends a
keep-alive, and then waits for whatever comes first, a signal in the mailbox, the end of a call of
`recv`, or the next time it has to look at the clock.  A result of `recv` ends the loop only when
`check_message_signal` makes a signal of it.  The error of a header that is too large is not made a
signal, and the header stays in the buffer, so that the next call yields it again; nor is the error
of a frame that cannot be decoded, which is taken from the buffer and counts as no message; and the
time a peer has been silent is counted from its last message, so that it is always zero for a peer
that has never sent one.

Main definitions:

* `checkMessageSignal` — what becomes of a result of `recv`;
* `ReceiveLoop.turn` — one round of the loop;
* `EndsRound` — a frame whose result ends the loop;
* `ReceiveLoop.Endless` — the loop goes round forever on finite input.

Main results:

* `bufferedMessage_progress_iff` — a result takes from the buffer or stops the connection unless it
  is that of a header that is too large;
* `not_endless_iff` — the loop cannot go round forever once the peer has sent a message, or when
  a message is in the buffer;
* `receive_loop_progress` — **when the loop makes progress**.
-/

import Tortillas.PeerStream
import Tortillas.PeerActor

set_option relaxedAutoImplicit false
set_option autoImplicit false

namespace Tortillas

/-- What the loop hands to the actor: a message, a signal from the mailbox, or that it stops. -/
inductive PeerSignal
  | message (m : PeerMessages)
  | mailbox
  | stop

/-- The kinds of an I/O error that end a connection. -/
def ErrorKind.endsConnection : ErrorKind → Bool
  | .unexpectedEof | .connectionReset | .connectionAborted => true
  | .other | .notConnected | .brokenPipe => true
  | _ => false

/-- `check_message_signal`; the flag says whether the reference of the actor can be upgraded.  A call
that panics yields nothing that could be checked. -/
def checkMessageSignal (upgrade : Bool) : Received → Option PeerSignal
  | .ok message => if upgrade then some (.message message) else none
  | .err (.io e) | .err (.receiveFailed e) => if e.kind.endsConnection then some .stop else none
  | .err _ => none
  | .panic => none

/-- The timeouts, in nanoseconds. -/
structure PeerSettings where
  keepaliveTimeout : ℕ
  disconnectTimeout : ℕ

/-- What the loop reads and writes of the actor. -/
structure ReceiveLoop where
  id : PeerId
  stream : PeerStream
  lastMessageReceived : Option ℕ
  lastMessageSent : Option ℕ

/-- What ends the waiting of a round. -/
inductive Arm
  | mailbox
  | message
  | eof
  | fail (error : IoError)
  | timer

/-- What a round meets: the two readings of the clock, whether a keep-alive can be sent and when,
what the transport delivers to the call of `recv`, and what ends the waiting. -/
structure TurnEnv where
  now : ℕ
  later : ℕ
  sendOk : Bool
  sentAt : ℕ
  upgrade : Bool
  chunks : List Bytes
  arm : Arm

/-- What a round comes to. -/
inductive Turn
  | again (l : ReceiveLoop)
  | done (signal : PeerSignal) (l : ReceiveLoop) (told : List PeerEvent)
  | panics

namespace ReceiveLoop

def lastReceived (env : TurnEnv) (l : ReceiveLoop) : ℕ := l.lastMessageReceived.getD env.now

/-- How long the peer has been silent. -/
def idle (env : TurnEnv) (l : ReceiveLoop) : ℕ := env.later - l.lastReceived env

def keepaliveSent (env : TurnEnv) (l : ReceiveLoop) : Bool :=
  l.lastMessageSent.any fun lastSent => decide (l.lastReceived env ≤ lastSent)

/-- A keep-alive is due. -/
def keepaliveDue (settings : PeerSettings) (env : TurnEnv) (l : ReceiveLoop) : Bool :=
  decide (settings.keepaliveTimeout ≤ l.idle env) && !l.keepaliveSent env

/-- How long the loop waits before it looks at the clock again, at least a millisecond. -/
def nextIdleCheck (settings : PeerSettings) (env : TurnEnv) (l : ReceiveLoop) : ℕ :=
  let nextIdleDeadline :=
    if l.keepaliveSent env || decide (settings.keepaliveTimeout ≤ l.idle env) then
      settings.disconnectTimeout
    else min settings.keepaliveTimeout settings.disconnectTimeout
  max (nextIdleDeadline - l.idle env) 1000000

/-- The result of `recv` has won. -/
def receive (upgrade : Bool) (result : Received) (l : ReceiveLoop) : Turn :=
  match result with
  | .panic => .panics
  | result =>
      match checkMessageSignal upgrade result with
      | some signal => .done signal l []
      | none => .again l

/-- The `select!` of a round; `none` when the arm cannot win.  A call of `recv` that does not win is
dropped, and what it has read stays in the buffer. -/
def select (s : Serde) (env : TurnEnv) (l : ReceiveLoop) : Option Turn :=
  match env.arm, Receiving.run s ⟨l.stream, false, false⟩ (.call :: env.chunks.map .read) with
  | .mailbox, some (r, []) => some (.done .mailbox { l with stream := r.stream } [])
  -- the mailbox is looked at before `recv` is called
  | .mailbox, _ => if env.chunks = [] then some (.done .mailbox l []) else none
  | .message, some (r, result :: _) => some (receive env.upgrade result { l with stream := r.stream })
  | .eof, some (r, []) =>
      some (receive env.upgrade (.err closedConnection) { l with stream := r.stream })
  | .fail error, some (r, []) =>
      some (receive env.upgrade (.err (.io error)) { l with stream := r.stream })
  | .timer, some (r, []) => some (.again { l with stream := r.stream })
  | _, _ => none

/-- One round of the loop. -/
def turn (s : Serde) (settings : PeerSettings) (env : TurnEnv) (l : ReceiveLoop) : Option Turn :=
  if settings.disconnectTimeout ≤ l.idle env then some (.done .stop l [.killPeer l.id])
  else if l.keepaliveDue settings env then
    if env.sendOk then { l with lastMessageSent := some env.sentAt }.select s env
    else some (.done .stop l [])
  else l.select s env

/-- **The loop goes round forever on finite input**: no round ends it, with a message, with a signal
from the mailbox or by stopping, and from some round on nothing is taken in any more.  The actor is
referenced, since the mailbox has ended otherwise and the round would receive that.  Time passes
meanwhile, and a round that waits for the clock takes as long as it has set out to wait. -/
structure Endless (s : Serde) (settings : PeerSettings) (l : ReceiveLoop) (envs : ℕ → TurnEnv)
    (states : ℕ → ReceiveLoop) : Prop where
  start : states 0 = l
  turns : ∀ n, (states n).turn s settings (envs n) = some (.again (states (n + 1)))
  referenced : ∀ n, (envs n).upgrade = true
  settles : ∃ N, ∀ n, N ≤ n → (states (n + 1)).stream = (states n).stream
  clock : ∀ n, (envs n).now ≤ (envs n).later ∧ (envs n).later ≤ (envs n).sentAt ∧
    (envs n).sentAt ≤ (envs (n + 1)).now
  sleeps : ∀ n, (envs n).arm = .timer →
    (envs n).later + (states n).nextIdleCheck settings (envs n) ≤ (envs (n + 1)).now
  passes : ∀ time, ∃ n, time ≤ (envs n).now

end ReceiveLoop

/-! ### One result -/

/-- The header in front of the buffer announces more than is accepted. -/
def Oversized (readBuffer : Bytes) : Prop :=
  4 ≤ readBuffer.length ∧ maxFramePayloadLength < announced readBuffer

theorem oversized_iff {readBuffer : Bytes} :
    Oversized readBuffer ↔ ∃ n, nextFrame maxFramePayloadLength readBuffer = .oversized n := by
  unfold Oversized nextFrame
  constructor
  · rintro ⟨hheader, hmax⟩
    exact ⟨announced readBuffer, by rw [if_neg (by omega), if_pos hmax]⟩
  · rintro ⟨n, hn⟩
    split at hn
    · cases hn
    · rename_i hheader
      split at hn
      · rename_i hmax
        exact ⟨by omega, hmax⟩
      · split at hn
        · cases hn
        · cases hn

/-- A result takes from the buffer or stops the connection, unless it is that of a header that is
too large. -/
theorem bufferedMessage_progress_iff (s : Serde) (readBuffer : Bytes) :
    (∀ upgrade result rest, bufferedMessage s readBuffer = (some result, rest) →
        rest.length < readBuffer.length ∨ checkMessageSignal upgrade result = some .stop) ↔
      ¬ Oversized readBuffer := by
  rw [oversized_iff, bufferedMessage_eq]
  cases hnext : nextFrame maxFramePayloadLength readBuffer with
  | more => simp
  | oversized n =>
      refine iff_of_false ?_ (fun h => h ⟨n, rfl⟩)
      intro h
      rcases h true _ _ rfl with hlt | hstop
      · exact absurd hlt (Nat.lt_irrefl _)
      · cases hstop
  | frame frame rest =>
      refine iff_of_true ?_ (by simp)
      rintro upgrade result rest' h
      cases h
      exact .inl (length_rest_lt hnext)

/-- The result of the frame ends the loop: it is a message, it stops the connection, or the call
panics. -/
def EndsRound (s : Serde) (frame : Bytes) : Prop :=
  PeerMessages.fromBytes s frame = .panic ∨
    checkMessageSignal true (PeerMessages.fromBytes s frame) ≠ none

namespace ReceiveLoop

/-! ### Rounds that go on -/

variable {s : Serde} {settings : PeerSettings} {env : TurnEnv} {l l' : ReceiveLoop}

theorem receive_eq_again {upgrade : Bool} {result : Received}
    (h : receive upgrade result l = .again l') :
    l' = l ∧ result ≠ .panic ∧ checkMessageSignal upgrade result = none := by
  unfold receive at h
  split at h
  · cases h
  · rename_i hpanic
    split at h
    · cases h
    · rename_i hsignal
      cases h
      exact ⟨rfl, hpanic, hsignal⟩

/-- A `select!` that goes on leaves all but the stream as it is, and the result that has won, if
any, is no signal. -/
theorem select_eq_again (h : l.select s env = some (.again l')) :
    ∃ r results, Receiving.run s ⟨l.stream, false, false⟩ (.call :: env.chunks.map .read) =
        some (r, results) ∧ l' = { l with stream := r.stream } ∧
      ∀ result ∈ results.head?, result ≠ .panic ∧ checkMessageSignal env.upgrade result = none := by
  unfold select at h
  split at h
  · cases h
  · split at h
    · cases h
    · cases h
  -- a result has won, the transport has ended, or it has failed
  · rename_i hrun
    obtain ⟨rfl, hresult⟩ := receive_eq_again (Option.some.inj h)
    refine ⟨_, _, hrun, rfl, ?_⟩
    intro result hhead
    rw [List.head?_cons, Option.mem_some_iff] at hhead
    exact hhead ▸ hresult
  · rename_i hrun
    exact ⟨_, _, hrun, (receive_eq_again (Option.some.inj h)).1, by simp⟩
  · rename_i hrun
    exact ⟨_, _, hrun, (receive_eq_again (Option.some.inj h)).1, by simp⟩
  · rename_i hrun
    cases h
    exact ⟨_, _, hrun, rfl, by simp⟩
  · cases h

/-- A round goes on only before the disconnect deadline, and when no signal is received. -/
theorem turn_eq_again (h : l.turn s settings env = some (.again l')) :
    l.idle env < settings.disconnectTimeout ∧ l'.lastMessageReceived = l.lastMessageReceived ∧
      ∃ r results, Receiving.run s ⟨l.stream, false, false⟩ (.call :: env.chunks.map .read) =
        some (r, results) ∧ l'.stream = r.stream ∧
      ∀ result ∈ results.head?, result ≠ .panic ∧ checkMessageSignal env.upgrade result = none := by
  unfold turn at h
  split at h
  · cases h
  · rename_i hidle
    refine ⟨Nat.lt_of_not_le hidle, ?_⟩
    split at h
    · split at h
      · obtain ⟨r, results, hrun, rfl, hresult⟩ := select_eq_again h
        exact ⟨rfl, r, results, hrun, rfl, hresult⟩
      · cases h
    · obtain ⟨r, results, hrun, rfl, hresult⟩ := select_eq_again h
      exact ⟨rfl, r, results, hrun, rfl, hresult⟩

/-- A call takes the frame that the buffer begins with, and yields its message. -/
theorem run_of_frame {stream : PeerStream} {frame rest : Bytes} {chunks : List Bytes}
    {r : Receiving} {results : List Received}
    (hnext : nextFrame maxFramePayloadLength stream.readBuffer = .frame frame rest)
    (hrun : Receiving.run s ⟨stream, false, false⟩ (.call :: chunks.map .read) = some (r, results)) :
    r.stream.readBuffer = rest ∧ results = [PeerMessages.fromBytes s frame] := by
  rw [Receiving.run, Receiving.step, Receiving.poll, bufferedMessage_eq, hnext] at hrun
  cases chunks with
  | nil =>
      cases hrun
      exact ⟨rfl, rfl⟩
  | cons chunk chunks =>
      -- the call is over, and nothing is read any more
      simp [Receiving.run, Receiving.step] at hrun

/-- A round that goes on takes the frame that the buffer begins with, whose result is no signal. -/
theorem turn_of_frame {frame rest : Bytes} (h : l.turn s settings env = some (.again l'))
    (hupgrade : env.upgrade = true)
    (hnext : nextFrame maxFramePayloadLength l.stream.readBuffer = .frame frame rest) :
    l'.stream.readBuffer = rest ∧ ¬ EndsRound s frame := by
  obtain ⟨-, -, r, results, hrun, hl', hresult⟩ := turn_eq_again h
  obtain ⟨hrest, rfl⟩ := run_of_frame hnext hrun
  obtain ⟨hpanic, hsignal⟩ := hresult _ rfl
  rw [hupgrade] at hsignal
  refine ⟨by rw [hl', hrest], ?_⟩
  rintro (hends | hends)
  · exact hpanic hends
  · exact hends hsignal

/-! ### Rounds forever -/

variable {envs : ℕ → TurnEnv} {states : ℕ → ReceiveLoop}

theorem Endless.lastMessageReceived_eq (h : Endless s settings l envs states) (n : ℕ) :
    (states n).lastMessageReceived = l.lastMessageReceived := by
  induction n with
  | zero => rw [h.start]
  | succ n ih => rw [(turn_eq_again (h.turns n)).2.1, ih]

/-- A peer that has sent a message is disconnected in the end. -/
theorem Endless.lastMessageReceived_eq_none (h : Endless s settings l envs states) :
    l.lastMessageReceived = none := by
  cases hlast : l.lastMessageReceived with
  | none => rfl
  | some received =>
      exfalso
      obtain ⟨n, hn⟩ := h.passes (received + settings.disconnectTimeout)
      have hidle := (turn_eq_again (h.turns n)).1
      have hclock := (h.clock n).1
      rw [idle, lastReceived, h.lastMessageReceived_eq n, hlast, Option.getD_some] at hidle
      omega

/-- No frame of the buffer ends the loop: they are taken one by one, a round each. -/
theorem Endless.not_endsRound (h : Endless s settings l envs states) {frames : List Bytes} {n : ℕ}
    (hframes : (cut maxFramePayloadLength (states n).stream.readBuffer).1 = frames) :
    ∀ frame ∈ frames, ¬ EndsRound s frame := by
  induction frames generalizing n with
  | nil => exact nofun
  | cons first frames ih =>
      cases hnext : nextFrame maxFramePayloadLength (states n).stream.readBuffer with
      | more =>
          rw [cut_of_not_frame (by rw [hnext]; exact nofun)] at hframes
          cases hframes
      | oversized k =>
          rw [cut_of_not_frame (by rw [hnext]; exact nofun)] at hframes
          cases hframes
      | frame frame rest =>
          rw [cut_of_frame hnext] at hframes
          cases hframes
          obtain ⟨hrest, hends⟩ := turn_of_frame (h.turns n) (h.referenced n) hnext
          exact List.forall_mem_cons.2 ⟨hends, ih (n := n + 1) (by rw [hrest])⟩

/-- The buffer behind its first frame. -/
def skim (readBuffer : Bytes) : Bytes :=
  match nextFrame maxFramePayloadLength readBuffer with
  | .frame _ rest => rest
  | _ => readBuffer

theorem skim_of_frame {readBuffer frame rest : Bytes}
    (h : nextFrame maxFramePayloadLength readBuffer = .frame frame rest) : skim readBuffer = rest := by
  rw [skim, h]

theorem skim_of_not_frame {readBuffer : Bytes}
    (h : ∀ frame rest, nextFrame maxFramePayloadLength readBuffer ≠ .frame frame rest) :
    skim readBuffer = readBuffer := by
  unfold skim
  split
  · rename_i hnext
    exact absurd hnext (h _ _)
  · rfl

theorem cut_skim_subset (readBuffer : Bytes) :
    (cut maxFramePayloadLength (skim readBuffer)).1 ⊆ (cut maxFramePayloadLength readBuffer).1 := by
  by_cases h : ∃ frame rest, nextFrame maxFramePayloadLength readBuffer = .frame frame rest
  · obtain ⟨frame, rest, hnext⟩ := h
    rw [skim_of_frame hnext, cut_of_frame hnext]
    exact List.subset_cons_self _ _
  · rw [skim_of_not_frame (by simpa using h)]
    exact List.Subset.refl _

/-- After as many rounds as the buffer has frames, what is behind the last one is left. -/
theorem skim_iterate {readBuffer : Bytes} {n : ℕ}
    (h : (cut maxFramePayloadLength readBuffer).1.length ≤ n) :
    skim^[n] readBuffer = (cut maxFramePayloadLength readBuffer).2 := by
  induction n generalizing readBuffer with
  | zero =>
      by_cases hframe : ∃ frame rest, nextFrame maxFramePayloadLength readBuffer = .frame frame rest
      · obtain ⟨frame, rest, hnext⟩ := hframe
        rw [cut_of_frame hnext] at h
        exact absurd h (Nat.not_succ_le_zero _)
      · rw [cut_of_not_frame (by simpa using hframe)]
        rfl
  | succ n ih =>
      rw [Function.iterate_succ_apply]
      by_cases hframe : ∃ frame rest, nextFrame maxFramePayloadLength readBuffer = .frame frame rest
      · obtain ⟨frame, rest, hnext⟩ := hframe
        rw [cut_of_frame hnext] at h ⊢
        rw [skim_of_frame hnext]
        exact ih (Nat.le_of_succ_le_succ h)
      · have hcut : cut maxFramePayloadLength readBuffer = ([], readBuffer) :=
          cut_of_not_frame (by simpa using hframe)
        rw [skim_of_not_frame (by simpa using hframe)]
        exact ih (by rw [hcut]; exact Nat.zero_le n)

/-- The environment of a round of a peer that is silent: the clock goes on by more than any
deadline, and the round ends in the first way it can. -/
def silent (settings : PeerSettings) (readBuffer : Bytes) (n : ℕ) : TurnEnv where
  now := n * (settings.disconnectTimeout + 1000000)
  later := n * (settings.disconnectTimeout + 1000000)
  sendOk := true
  sentAt := n * (settings.disconnectTimeout + 1000000)
  upgrade := true
  chunks := []
  arm := if nextFrame maxFramePayloadLength readBuffer = .more then .timer else .message

/-- The loop after a round that goes on: the first frame of its buffer is taken. -/
def skimmed (l : ReceiveLoop) : ReceiveLoop :=
  { l with stream := { l.stream with readBuffer := skim l.stream.readBuffer } }

theorem select_silent (settings : PeerSettings) (n : ℕ) (l : ReceiveLoop)
    (hends : ∀ frame ∈ (cut maxFramePayloadLength l.stream.readBuffer).1, ¬ EndsRound s frame) :
    l.select s (silent settings l.stream.readBuffer n) = some (.again l.skimmed) := by
  unfold select skimmed skim
  rw [silent]
  simp only [List.map_nil, Receiving.run, Receiving.step, Receiving.poll, bufferedMessage_eq]
  cases hnext : nextFrame maxFramePayloadLength l.stream.readBuffer with
  | more => rfl
  | oversized k => rfl
  | frame frame rest =>
      -- the result of the frame wins, and it is no signal
      rw [cut_of_frame hnext] at hends
      have hframe := hends frame (List.mem_cons_self ..)
      rw [EndsRound, not_or, not_not] at hframe
      simp only [reduceCtorEq, if_false, Option.map_some, Option.toList_some, List.cons_append]
      unfold receive
      split
      · rename_i hpanic
        exact absurd hpanic hframe.1
      · rw [hframe.2]

/-- The states of the loop of a silent peer: the frames of its buffer are taken, and at most a
keep-alive is sent. -/
def drift (settings : PeerSettings) (l : ReceiveLoop) : ℕ → ReceiveLoop
  | 0 => l
  | n + 1 =>
      let l := drift settings l n
      let env := silent settings l.stream.readBuffer n
      if l.keepaliveDue settings env then
        { l with lastMessageSent := some env.sentAt }.skimmed
      else l.skimmed

theorem drift_eq (settings : PeerSettings) (l : ReceiveLoop) (n : ℕ) :
    (drift settings l n).stream = ⟨skim^[n] l.stream.readBuffer, l.stream.bytesDownloaded⟩ ∧
      (drift settings l n).lastMessageReceived = l.lastMessageReceived := by
  induction n with
  | zero => exact ⟨rfl, rfl⟩
  | succ n ih =>
      obtain ⟨hstream, hreceived⟩ := ih
      rw [drift, Function.iterate_succ_apply']
      split
      · exact ⟨by rw [skimmed, hstream], hreceived⟩
      · exact ⟨by rw [skimmed, hstream], hreceived⟩

/-- The frames that are left are frames of the buffer. -/
theorem cut_drift_subset (settings : PeerSettings) (l : ReceiveLoop) (n : ℕ) :
    (cut maxFramePayloadLength (drift settings l n).stream.readBuffer).1 ⊆
      (cut maxFramePayloadLength l.stream.readBuffer).1 := by
  induction n with
  | zero => exact List.Subset.refl _
  | succ n ih =>
      rw [(drift_eq settings l n).1] at ih
      rw [(drift_eq settings l (n + 1)).1, Function.iterate_succ_apply']
      exact List.Subset.trans (cut_skim_subset _) ih

theorem turn_drift (hpos : 0 < settings.disconnectTimeout) (hlast : l.lastMessageReceived = none)
    (hends : ∀ frame ∈ (cut maxFramePayloadLength l.stream.readBuffer).1, ¬ EndsRound s frame)
    (n : ℕ) :
    (drift settings l n).turn s settings
        (silent settings (drift settings l n).stream.readBuffer n) =
      some (.again (drift settings l (n + 1))) := by
  have hselect : ∀ m : ReceiveLoop, m.stream = (drift settings l n).stream →
      m.select s (silent settings (drift settings l n).stream.readBuffer n) =
        some (.again m.skimmed) := by
    intro m hm
    rw [← hm]
    refine select_silent settings n m fun frame hframe => hends frame ?_
    rw [hm] at hframe
    exact cut_drift_subset settings l n hframe
  have hidle : (drift settings l n).idle
      (silent settings (drift settings l n).stream.readBuffer n) = 0 := by
    rw [idle, lastReceived, (drift_eq settings l n).2, hlast, Option.getD_none]
    exact Nat.sub_self _
  rw [turn, if_neg (by omega), drift]
  split
  · rw [if_pos (by rfl)]
    exact hselect _ rfl
  · exact hselect _ rfl

/-- **The loop of a peer that has never sent a message goes round forever**, unless a frame of the
buffer ends it. -/
theorem endless_drift (hpos : 0 < settings.disconnectTimeout)
    (hlast : l.lastMessageReceived = none)
    (hends : ∀ frame ∈ (cut maxFramePayloadLength l.stream.readBuffer).1, ¬ EndsRound s frame) :
    Endless s settings l (fun n => silent settings (drift settings l n).stream.readBuffer n)
      (drift settings l) where
  start := rfl
  turns := turn_drift hpos hlast hends
  referenced := fun _ => rfl
  settles := by
    refine ⟨(cut maxFramePayloadLength l.stream.readBuffer).1.length, fun n hn => ?_⟩
    rw [(drift_eq settings l n).1, (drift_eq settings l (n + 1)).1, skim_iterate hn,
      skim_iterate (hn.trans (Nat.le_succ n))]
  clock := fun n => ⟨le_rfl, le_rfl, Nat.mul_le_mul_right _ (Nat.le_succ n)⟩
  sleeps := by
    intro n _
    have hcheck : (drift settings l n).nextIdleCheck settings
        (silent settings (drift settings l n).stream.readBuffer n) ≤
          settings.disconnectTimeout + 1000000 := by
      rw [nextIdleCheck]
      refine max_le ?_ (Nat.le_add_left _ _)
      refine (Nat.sub_le _ _).trans ?_
      split
      · exact Nat.le_add_right _ _
      · exact (Nat.min_le_right _ _).trans (Nat.le_add_right _ _)
    have hnow : (silent settings (drift settings l (n + 1)).stream.readBuffer (n + 1)).now =
        (silent settings (drift settings l n).stream.readBuffer n).later +
          (settings.disconnectTimeout + 1000000) :=
      Nat.succ_mul n _
    omega
  passes := fun time => ⟨time, Nat.le_mul_of_pos_right _ (by omega)⟩

/-- The loop cannot go round forever once the peer has sent a message, when it does not wait for
peers at all, or when a frame of the buffer ends it. -/
theorem not_endless_iff (s : Serde) (settings : PeerSettings) (l : ReceiveLoop) :
    (¬ ∃ envs states, Endless s settings l envs states) ↔
      settings.disconnectTimeout = 0 ∨ l.lastMessageReceived ≠ none ∨
        ∃ frame ∈ (cut maxFramePayloadLength l.stream.readBuffer).1, EndsRound s frame := by
  constructor
  · intro h
    by_contra hcondition
    simp only [not_or, not_not, not_exists, not_and] at hcondition
    obtain ⟨hzero, hlast, hends⟩ := hcondition
    exact h ⟨_, _, endless_drift (Nat.pos_of_ne_zero hzero) hlast hends⟩
  · rintro hcondition ⟨envs, states, h⟩
    rcases hcondition with hzero | hlast | ⟨frame, hframe, hends⟩
    · have hidle := (turn_eq_again (h.turns 0)).1
      omega
    · exact hlast h.lastMessageReceived_eq_none
    · rw [← h.start] at hframe
      exact h.not_endsRound rfl frame hframe hends

end ReceiveLoop

/-- **When the loop makes progress**: a result takes from the buffer or stops the connection, and
the loop does not go round forever on finite input, exactly when the buffer does not begin with a
header that is too large and the silence of the peer comes to an end or a frame of the buffer ends
the loop. -/
theorem receive_loop_progress (s : Serde) (settings : PeerSettings) (l : ReceiveLoop) :
    ((∀ upgrade result rest, bufferedMessage s l.stream.readBuffer = (some result, rest) →
        rest.length < l.stream.readBuffer.length ∨
          checkMessageSignal upgrade result = some .stop) ∧
      ¬ ∃ envs states, ReceiveLoop.Endless s settings l envs states) ↔
    ¬ Oversized l.stream.readBuffer ∧
      (settings.disconnectTimeout = 0 ∨ l.lastMessageReceived ≠ none ∨
        ∃ frame ∈ (cut maxFramePayloadLength l.stream.readBuffer).1, EndsRound s frame) :=
  and_congr (bufferedMessage_progress_iff s l.stream.readBuffer)
    (ReceiveLoop.not_endless_iff s settings l)

namespace Sample

/-- The loop of a peer whose first bytes are a header that is too large. -/
def flooded : ReceiveLoop := ⟨.ofId announced, ⟨[0, 16, 0, 1], 4⟩, none, none⟩

def peerSettings : PeerSettings := ⟨120000000000, 240000000000⟩

end Sample

/-- A header that is too large is found again and again. -/
theorem oversized_header_spins :
    (bufferedMessage Sample.serde [0, 16, 0, 1] =
        (some (.err (oversizedFrame 1048577)), [0, 16, 0, 1]) ∧
      checkMessageSignal true (.err (oversizedFrame 1048577)) = none) ∧
    ∃ envs states, ReceiveLoop.Endless Sample.serde Sample.peerSettings Sample.flooded envs states := by
  have hnext : nextFrame maxFramePayloadLength [0, 16, 0, 1] = .oversized 1048577 := by
    decide +kernel
  have hcut : cut maxFramePayloadLength [0, 16, 0, 1] = ([], [0, 16, 0, 1]) :=
    cut_of_not_frame (by rw [hnext]; exact nofun)
  refine ⟨⟨?_, rfl⟩, _, _, ReceiveLoop.endless_drift (by decide) rfl ?_⟩
  · rw [bufferedMessage_eq, hnext]
  · change ∀ frame ∈ (cut maxFramePayloadLength [0, 16, 0, 1]).1, _
    rw [hcut]
    exact nofun

end Tortillas
