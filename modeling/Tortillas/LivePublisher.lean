/-
**Publishers of live state.**

`live/stream.rs`: a publisher has a current view and numbers the events it publishes.  The channel
of the events is made when the first subscription asks for it, and its sender is taken out and
dropped when the publisher closes.  Every operation holds the lock of the state from its beginning
to its end, so operations of any number of threads take place one after another; a subscriber reads
at any time.

Main definitions:

* `LivePublisher` — the view, the number of the last event, and the slot of the sender; the channels
  are the memory that the publisher shares with its subscribers;
* `LiveOp`, `LivePublisher.apply` — the operations that may be refused;
* `liveSystem` — a publisher with its subscribers.  Its state also keeps, as a record of the run, the
  operations with their answers, the events that were accepted, and what each subscriber has read.

Main results:

* `LiveSystem.Streams.emit`, `LiveSystem.Streams.shut` — what an accepted event and a close do to the
  streams of all subscribers;
* `live_streams_gap_free` — **streams are gap-free and end once**.
-/

import Tortillas.Broadcast
import Tortillas.Transition
import Tortillas.Usize

set_option relaxedAutoImplicit false
set_option autoImplicit false

namespace Tortillas

variable {V E : Type}

/-- An event with its number. -/
structure SequencedEvent (E : Type) where
  sequence : ℕ
  kind : E
  deriving DecidableEq

structure LivePublisher (V E : Type) where
  view : V
  sequence : ℕ
  closed : Bool
  capacity : ℕ
  /-- The channel whose sender is in the slot. -/
  sender : Option ℕ
  channels : List (Broadcast (SequencedEvent E))

/-- A subscription: its channel and its position there. -/
structure EventSubscription where
  channel : ℕ
  next : ℕ
  deriving DecidableEq

/-- The largest capacity a channel can be made with. -/
def maxChannelCapacity : ℕ := usizeMax / 2

namespace LivePublisher

/-- A capacity of zero is taken as one. -/
def new (initialView : V) (eventCapacity : ℕ) : LivePublisher V E where
  view := initialView
  sequence := 0
  closed := false
  capacity := max eventCapacity 1
  sender := none
  channels := []

/-- The channel at an address, at its end. -/
def fromReceiver (p : LivePublisher V E) (channel : ℕ) : EventSubscription :=
  ⟨channel, ((p.channels[channel]?).map fun ch => ch.sent.length).getD 0⟩

/-- Subscribe; `none` when making the channel panics. -/
def subscribe (p : LivePublisher V E) : LivePublisher V E × Option EventSubscription :=
  if p.closed then
    -- a channel of its own, whose sender is dropped at once
    let p' := { p with channels := p.channels ++ [(Broadcast.new 1).close] }
    (p', some (p'.fromReceiver p.channels.length))
  else
    match p.sender with
    | some channel => (p, some (p.fromReceiver channel))
    | none =>
        if maxChannelCapacity < p.capacity then (p, none)
        else
          let p' := { p with
            sender := some p.channels.length
            channels := p.channels ++ [Broadcast.new p.capacity] }
          (p', some (p'.fromReceiver p.channels.length))

def replaceView (p : LivePublisher V E) (view : V) : LivePublisher V E × Bool :=
  if p.closed then (p, false) else ({ p with view := view }, true)

def sendIfSubscribed (p : LivePublisher V E) (event : E) : LivePublisher V E :=
  match p.sender with
  | some channel =>
      { p with channels := p.channels.modify channel (·.send ⟨p.sequence, event⟩) }
  | none => p

def applyAndEmit (p : LivePublisher V E) (edit : V → V) (event : E) : LivePublisher V E × Bool :=
  if p.closed then (p, false)
  else
    let p' := { p with view := edit p.view, sequence := saturatingAdd p.sequence 1 }
    (p'.sendIfSubscribed event, true)

def replaceViewAndEmit (p : LivePublisher V E) (view : V) (event : E) : LivePublisher V E × Bool :=
  p.applyAndEmit (fun _ => view) event

def emitWithoutViewChange (p : LivePublisher V E) (event : E) : LivePublisher V E × Bool :=
  p.applyAndEmit id event

def closeWithTerminalEvent (p : LivePublisher V E) (view : V) (event : E) :
    LivePublisher V E × Bool :=
  if p.closed then (p, false)
  else
    let p' := { p with view := view, sequence := saturatingAdd p.sequence 1, closed := true }
    match p'.sender with
    | some channel =>
        ({ p' with
            sender := none
            channels := p'.channels.modify channel
              fun ch => (ch.send ⟨p'.sequence, event⟩).close }, true)
    | none => (p', true)

/-- Read from a subscription; `none` while there is nothing to read. -/
def recv (p : LivePublisher V E) (subscription : EventSubscription) :
    Option (Reading (SequencedEvent E)) × EventSubscription :=
  match p.channels[subscription.channel]? with
  | none => (none, subscription)
  | some ch =>
      let (result, next) := ch.recv subscription.next
      (result, { subscription with next := next })

end LivePublisher

/-- The operations that a closed publisher refuses. -/
inductive LiveOp (V E : Type)
  | replaceView (view : V)
  | replaceViewAndEmit (view : V) (event : E)
  | emitWithoutViewChange (event : E)
  | closeWithTerminalEvent (view : V) (event : E)

/-- The event that an operation publishes. -/
def LiveOp.event? : LiveOp V E → Option E
  | replaceView _ => none
  | replaceViewAndEmit _ event => some event
  | emitWithoutViewChange event => some event
  | closeWithTerminalEvent _ event => some event

def LiveOp.isClose : LiveOp V E → Bool
  | closeWithTerminalEvent _ _ => true
  | _ => false

def LivePublisher.apply (p : LivePublisher V E) : LiveOp V E → LivePublisher V E × Bool
  | .replaceView view => p.replaceView view
  | .replaceViewAndEmit view event => p.replaceViewAndEmit view event
  | .emitWithoutViewChange event => p.emitWithoutViewChange event
  | .closeWithTerminalEvent view event => p.closeWithTerminalEvent view event

/-- A subscriber, with what it has read and how many events had been accepted when it subscribed. -/
structure Subscriber (E : Type) where
  subscription : EventSubscription
  start : ℕ
  since : ℕ
  results : List (Reading (SequencedEvent E))

structure LiveSystem (V E : Type) where
  publisher : LivePublisher V E
  subscribers : List (Subscriber E)
  accepted : List (SequencedEvent E)
  outcomes : List (LiveOp V E × Bool)

inductive LiveInput (V E : Type)
  | op (op : LiveOp V E)
  | subscribe
  | recv (subscriber : ℕ)

namespace LiveSystem

/-- What an operation leaves in the record of accepted events. -/
def newEvents (p : LivePublisher V E) (op : LiveOp V E) : List (SequencedEvent E) :=
  if (p.apply op).2 then (op.event?.map fun e => ⟨(p.apply op).1.sequence, e⟩).toList else []

def step (s : LiveSystem V E) : LiveInput V E → LiveSystem V E
  | .op op =>
      { s with
        publisher := (s.publisher.apply op).1
        accepted := s.accepted ++ newEvents s.publisher op
        outcomes := s.outcomes ++ [(op, (s.publisher.apply op).2)] }
  | .subscribe =>
      match s.publisher.subscribe with
      | (p, none) => { s with publisher := p }
      | (p, some subscription) =>
          { s with
            publisher := p
            subscribers := s.subscribers ++
              [⟨subscription, subscription.next, s.accepted.length, []⟩] }
  | .recv n =>
      { s with
        subscribers := s.subscribers.modify n fun sub =>
          { sub with
            subscription := (s.publisher.recv sub.subscription).2
            results := sub.results ++ (s.publisher.recv sub.subscription).1.toList } }

end LiveSystem

/-- A publisher of any view and capacity, with any operations, subscriptions and readings. -/
def liveSystem (V E : Type) : System (LiveSystem V E) (LiveInput V E) where
  init s := ∃ view capacity, s = ⟨.new view capacity, [], [], []⟩
  step s i t := t = s.step i

namespace LiveSystem

/-! ### The streams of the subscribers -/

/-- The numbers of the events, and what each subscriber has read and has still to read. -/
structure Streams (p : LivePublisher V E) (subscribers : List (Subscriber E))
    (accepted : List (SequencedEvent E)) : Prop where
  sequence : p.sequence = min accepted.length usizeMax
  numbers : accepted.map SequencedEvent.sequence =
    (List.range' 1 accepted.length).map fun n => min n usizeMax
  slot : ∀ channel, p.sender = some channel →
    p.closed = false ∧ ∃ ch, p.channels[channel]? = some ch ∧ ch.closed = false
  subscriber : ∀ sub ∈ subscribers, sub.since ≤ accepted.length ∧
    (p.closed = false → p.sender = some sub.subscription.channel) ∧
    ∃ ch, p.channels[sub.subscription.channel]? = some ch ∧ ch.closed = p.closed ∧
      ch.Tracks sub.start sub.subscription.next sub.results ∧
      ch.sent.drop sub.start = accepted.drop sub.since

variable {p : LivePublisher V E} {subscribers : List (Subscriber E)}
  {accepted : List (SequencedEvent E)}

theorem streams_new (view : V) (capacity : ℕ) :
    Streams (LivePublisher.new view capacity : LivePublisher V E) [] [] where
  sequence := rfl
  numbers := rfl
  slot channel h := by cases h
  subscriber sub h := by cases h

/-- The view has no part in the streams. -/
theorem Streams.setView (h : Streams p subscribers accepted) (view : V) :
    Streams { p with view := view } subscribers accepted :=
  ⟨h.sequence, h.numbers, h.slot, h.subscriber⟩

/-- The next number is one more than the last. -/
theorem Streams.next_sequence (h : Streams p subscribers accepted) :
    saturatingAdd p.sequence 1 = min (accepted.length + 1) usizeMax := by
  rw [saturatingAdd, h.sequence]
  omega

/-- An event with the next number. -/
def nextEvent (p : LivePublisher V E) (event : E) : SequencedEvent E :=
  ⟨saturatingAdd p.sequence 1, event⟩

theorem Streams.numbers_concat (h : Streams p subscribers accepted) (event : E) :
    (accepted ++ [nextEvent p event]).map SequencedEvent.sequence =
      (List.range' 1 (accepted ++ [nextEvent p event]).length).map fun n => min n usizeMax := by
  rw [List.length_append, List.length_singleton, List.map_append, h.numbers, List.range'_concat,
    List.map_append, List.map_singleton, List.map_singleton, nextEvent, h.next_sequence,
    Nat.one_mul, Nat.add_comm 1]

/-- What one more event does to the part of a log behind a position. -/
theorem drop_concat_eq {α : Type} {l l' : List α} {m n : ℕ} (hm : m ≤ l.length) (hn : n ≤ l'.length)
    (h : l.drop m = l'.drop n) (a : α) : (l ++ [a]).drop m = (l' ++ [a]).drop n := by
  rw [List.drop_append_of_le_length hm, List.drop_append_of_le_length hn, h]

/-- **An event is accepted**: it is sent to every subscriber. -/
theorem Streams.emit (h : Streams p subscribers accepted) (hopen : p.closed = false) (event : E) :
    Streams (LivePublisher.sendIfSubscribed
        { p with sequence := saturatingAdd p.sequence 1 } event) subscribers
      (accepted ++ [nextEvent p event]) := by
  have hsequence : saturatingAdd p.sequence 1 =
      min (accepted ++ [nextEvent p event]).length usizeMax := by
    rw [List.length_append]
    exact h.next_sequence
  cases hsender : p.sender with
  | none =>
      -- nobody has subscribed yet
      simp only [LivePublisher.sendIfSubscribed]
      refine ⟨hsequence, h.numbers_concat event, ?_, ?_⟩
      · intro channel hchannel
        cases hchannel
      · intro sub hsub
        have hslot := (h.subscriber sub hsub).2.1 hopen
        rw [hsender] at hslot
        cases hslot
  | some channel =>
      obtain ⟨-, ch, hch, hchopen⟩ := h.slot channel hsender
      have hget : (p.channels.modify channel (·.send (nextEvent p event)))[channel]? =
          some (ch.send (nextEvent p event)) := by
        rw [List.getElem?_modify_eq, hch]
        rfl
      simp only [LivePublisher.sendIfSubscribed]
      refine ⟨hsequence, h.numbers_concat event, ?_, ?_⟩
      · intro channel' hchannel
        cases hchannel
        exact ⟨hopen, _, hget, hchopen⟩
      · intro sub hsub
        obtain ⟨hsince, hslot, ch', hch', hclosed, htracks, hdrop⟩ := h.subscriber sub hsub
        have hsame := hslot hopen
        rw [hsender, Option.some.injEq] at hsame
        subst hsame
        rw [hch, Option.some.injEq] at hch'
        subst hch'
        refine ⟨?_, fun _ => rfl, _, hget, hclosed, htracks.send hchopen _, ?_⟩
        · rw [List.length_append]
          omega
        · exact drop_concat_eq (Nat.le_trans htracks.start_le htracks.le_length) hsince hdrop _

/-- The publisher is closed and its sender dropped. -/
def shut (p : LivePublisher V E) : LivePublisher V E :=
  { p with
    closed := true
    sender := none
    channels :=
      match p.sender with
      | some channel => p.channels.modify channel Broadcast.close
      | none => p.channels }

/-- **The publisher closes**: every subscriber's channel is closed with it. -/
theorem Streams.shut (h : Streams p subscribers accepted) (hopen : p.closed = false) :
    Streams (shut p) subscribers accepted where
  sequence := h.sequence
  numbers := h.numbers
  slot channel hchannel := by cases hchannel
  subscriber sub hsub := by
    obtain ⟨hsince, hslot, ch, hch, -, htracks, hdrop⟩ := h.subscriber sub hsub
    refine ⟨hsince, fun hclosed => (nomatch hclosed), ch.close, ?_, rfl, htracks.close, hdrop⟩
    simp only [LiveSystem.shut, hslot hopen]
    rw [List.getElem?_modify_eq, hch]
    rfl

/-- Closing is publishing the terminal event and dropping the sender. -/
theorem closeWithTerminalEvent_eq (hopen : p.closed = false) (view : V) (event : E) :
    p.closeWithTerminalEvent view event =
      (LiveSystem.shut (LivePublisher.sendIfSubscribed
        { p with view := view, sequence := saturatingAdd p.sequence 1 } event), true) := by
  cases hsender : p.sender with
  | none => simp [LivePublisher.closeWithTerminalEvent, LivePublisher.sendIfSubscribed,
      LiveSystem.shut, hopen, hsender]
  | some channel =>
      simp [LivePublisher.closeWithTerminalEvent, LivePublisher.sendIfSubscribed,
        LiveSystem.shut, hopen, hsender, List.modify_modify_eq]
      rfl

/-- What an operation does: a closed publisher refuses it, an open one replaces the view, publishes
an event, or publishes the terminal event and closes. -/
theorem apply_cases (p : LivePublisher V E) (op : LiveOp V E) :
    (p.closed = true ∧ p.apply op = (p, false)) ∨
    (p.closed = false ∧ ∃ view, op = .replaceView view ∧
      p.apply op = ({ p with view := view }, true)) ∨
    (p.closed = false ∧ op.isClose = false ∧ ∃ view event, op.event? = some event ∧
      p.apply op = (LivePublisher.sendIfSubscribed
        { p with view := view, sequence := saturatingAdd p.sequence 1 } event, true)) ∨
    (p.closed = false ∧ ∃ view event, op = .closeWithTerminalEvent view event ∧
      p.apply op = (LiveSystem.shut (LivePublisher.sendIfSubscribed
        { p with view := view, sequence := saturatingAdd p.sequence 1 } event), true)) := by
  by_cases hclosed : p.closed = true
  · refine .inl ⟨hclosed, ?_⟩
    cases op with
    | replaceView view => exact if_pos hclosed
    | replaceViewAndEmit view event => exact if_pos hclosed
    | emitWithoutViewChange event => exact if_pos hclosed
    | closeWithTerminalEvent view event => exact if_pos hclosed
  · have hopen : p.closed = false := Bool.eq_false_iff.2 hclosed
    cases op with
    | replaceView view => exact .inr (.inl ⟨hopen, view, rfl, if_neg hclosed⟩)
    | replaceViewAndEmit view event =>
        exact .inr (.inr (.inl ⟨hopen, rfl, view, event, rfl, if_neg hclosed⟩))
    | emitWithoutViewChange event =>
        exact .inr (.inr (.inl ⟨hopen, rfl, p.view, event, rfl, if_neg hclosed⟩))
    | closeWithTerminalEvent view event =>
        exact .inr (.inr (.inr ⟨hopen, view, event, rfl, closeWithTerminalEvent_eq hopen view event⟩))

@[simp] theorem sendIfSubscribed_view (p : LivePublisher V E) (event : E) :
    (p.sendIfSubscribed event).view = p.view := by
  unfold LivePublisher.sendIfSubscribed
  split <;> rfl

@[simp] theorem sendIfSubscribed_sequence (p : LivePublisher V E) (event : E) :
    (p.sendIfSubscribed event).sequence = p.sequence := by
  unfold LivePublisher.sendIfSubscribed
  split <;> rfl

@[simp] theorem sendIfSubscribed_closed (p : LivePublisher V E) (event : E) :
    (p.sendIfSubscribed event).closed = p.closed := by
  unfold LivePublisher.sendIfSubscribed
  split <;> rfl

@[simp] theorem shut_view (p : LivePublisher V E) : (shut p).view = p.view := rfl

@[simp] theorem shut_sequence (p : LivePublisher V E) : (shut p).sequence = p.sequence := rfl

@[simp] theorem shut_closed (p : LivePublisher V E) : (shut p).closed = true := rfl

@[simp] theorem applyAndEmit_snd (p : LivePublisher V E) (edit : V → V) (event : E) :
    (p.applyAndEmit edit event).2 = !p.closed := by
  unfold LivePublisher.applyAndEmit
  cases p.closed <;> rfl

@[simp] theorem applyAndEmit_closed (p : LivePublisher V E) (edit : V → V) (event : E) :
    (p.applyAndEmit edit event).1.closed = p.closed := by
  unfold LivePublisher.applyAndEmit
  split
  · rfl
  · exact sendIfSubscribed_closed _ event

theorem closeWithTerminalEvent_snd (p : LivePublisher V E) (view : V) (event : E) :
    (p.closeWithTerminalEvent view event).2 = !p.closed := by
  unfold LivePublisher.closeWithTerminalEvent
  cases p.closed
  · cases p.sender <;> rfl
  · rfl

theorem closeWithTerminalEvent_closed (p : LivePublisher V E) (view : V) (event : E) :
    (p.closeWithTerminalEvent view event).1.closed = true := by
  cases hclosed : p.closed with
  | true => simp [LivePublisher.closeWithTerminalEvent, hclosed]
  | false => rw [closeWithTerminalEvent_eq hclosed, shut_closed]

theorem replaceView_closed (p : LivePublisher V E) (view : V) :
    (p.replaceView view).1.closed = p.closed := by
  unfold LivePublisher.replaceView
  split <;> rfl

/-- An operation and the streams. -/
theorem Streams.apply (h : Streams p subscribers accepted) (op : LiveOp V E) :
    Streams (p.apply op).1 subscribers (accepted ++ newEvents p op) := by
  rcases apply_cases p op with ⟨-, happly⟩ | ⟨-, view, rfl, happly⟩ |
    ⟨hopen, -, view, event, hevent, happly⟩ | ⟨hopen, view, event, rfl, happly⟩
  · simpa [newEvents, happly] using h
  · simpa [newEvents, happly, LiveOp.event?] using h.setView view
  · have hnew : newEvents p op = [nextEvent p event] := by
      simp [newEvents, happly, hevent, nextEvent]
    rw [hnew, happly]
    exact (h.setView view).emit hopen event
  · have hnew : newEvents p (.closeWithTerminalEvent view event) = [nextEvent p event] := by
      simp [newEvents, happly, LiveOp.event?, nextEvent]
    rw [hnew, happly]
    exact ((h.setView view).emit hopen event).shut (by simpa using hopen)

theorem getElem?_append_of_some {α : Type} {l : List α} {n : ℕ} {a : α} (h : l[n]? = some a)
    (l' : List α) : (l ++ l')[n]? = some a := by
  rw [List.getElem?_append_left (List.getElem?_eq_some_iff.1 h).1, h]

/-- A new channel does not disturb the others. -/
theorem Streams.addChannel (h : Streams p subscribers accepted)
    (ch : Broadcast (SequencedEvent E)) :
    Streams { p with channels := p.channels ++ [ch] } subscribers accepted where
  sequence := h.sequence
  numbers := h.numbers
  slot channel hchannel := by
    obtain ⟨hopen, ch', hch', hchopen⟩ := h.slot channel hchannel
    exact ⟨hopen, ch', getElem?_append_of_some hch' _, hchopen⟩
  subscriber sub hsub := by
    obtain ⟨hsince, hslot, ch', hch', hrest⟩ := h.subscriber sub hsub
    exact ⟨hsince, hslot, ch', getElem?_append_of_some hch' _, hrest⟩

/-- A new subscriber at the end of the publisher's channel, or of a closed channel of its own. -/
theorem Streams.addSubscriber (h : Streams p subscribers accepted) {channel : ℕ}
    {ch : Broadcast (SequencedEvent E)} (hch : p.channels[channel]? = some ch)
    (hclosed : ch.closed = p.closed) (hslot : p.closed = false → p.sender = some channel) :
    Streams p (subscribers ++
      [⟨p.fromReceiver channel, (p.fromReceiver channel).next, accepted.length, []⟩]) accepted where
  sequence := h.sequence
  numbers := h.numbers
  slot := h.slot
  subscriber sub hsub := by
    rcases List.mem_append.1 hsub with hsub | hsub
    · exact h.subscriber sub hsub
    · obtain rfl := List.mem_singleton.1 hsub
      have hnext : (p.fromReceiver channel).next = ch.sent.length := by
        simp [LivePublisher.fromReceiver, hch]
      refine ⟨Nat.le_refl _, hslot, ch, hch, hclosed, ?_, ?_⟩
      · rw [hnext]
        exact ch.tracks_new
      · rw [hnext, List.drop_length, List.drop_length]

/-- A subscription and the streams. -/
theorem Streams.subscribe (h : Streams p subscribers accepted) :
    Streams p.subscribe.1 (subscribers ++ (p.subscribe.2.map fun subscription =>
      ⟨subscription, subscription.next, accepted.length, []⟩).toList) accepted := by
  have hget (ch : Broadcast (SequencedEvent E)) :
      (p.channels ++ [ch])[p.channels.length]? = some ch := List.getElem?_concat_length
  by_cases hclosed : p.closed = true
  · -- a closed publisher hands out a channel of its own that is closed too
    simp only [LivePublisher.subscribe, if_pos hclosed]
    refine (h.addChannel _).addSubscriber (hget _) hclosed.symm ?_
    intro hopen
    rw [hclosed] at hopen
    cases hopen
  · have hopen : p.closed = false := Bool.eq_false_iff.2 hclosed
    cases hsender : p.sender with
    | some channel =>
        obtain ⟨-, ch, hch, hchopen⟩ := h.slot channel hsender
        simp only [LivePublisher.subscribe, if_neg hclosed, hsender]
        exact h.addSubscriber hch (hchopen.trans hopen.symm) fun _ => hsender
    | none =>
        by_cases hcapacity : maxChannelCapacity < p.capacity
        · simpa [LivePublisher.subscribe, hclosed, hsender, hcapacity] using h
        · -- the first subscription makes the channel
          simp only [LivePublisher.subscribe, if_neg hclosed, hsender, if_neg hcapacity]
          have hnone : subscribers = [] := by
            refine List.eq_nil_iff_forall_not_mem.2 ?_
            intro sub hsub
            have hslot := (h.subscriber sub hsub).2.1 hopen
            rw [hsender] at hslot
            cases hslot
          subst hnone
          have hnew : Streams { p with
              sender := some p.channels.length
              channels := p.channels ++ [Broadcast.new p.capacity] } [] accepted := by
            refine ⟨h.sequence, h.numbers, ?_, fun sub hsub => (nomatch hsub)⟩
            intro channel hchannel
            cases hchannel
            exact ⟨hopen, _, hget _, rfl⟩
          exact hnew.addSubscriber (hget _) hopen.symm fun _ => rfl

theorem mem_modify_cases {α : Type} {l : List α} {f : α → α} {n : ℕ} {a : α}
    (h : a ∈ l.modify n f) : a ∈ l ∨ ∃ b ∈ l, f b = a := by
  induction l generalizing n with
  | nil => simp at h
  | cons b l ih =>
      cases n with
      | zero =>
          rw [List.modify_zero_cons] at h
          rcases List.mem_cons.1 h with rfl | h
          · exact .inr ⟨b, List.mem_cons_self .., rfl⟩
          · exact .inl (List.mem_cons_of_mem _ h)
      | succ n =>
          rw [List.modify_succ_cons] at h
          rcases List.mem_cons.1 h with rfl | h
          · exact .inl (List.mem_cons_self ..)
          · rcases ih h with h | ⟨b', hb', rfl⟩
            · exact .inl (List.mem_cons_of_mem _ h)
            · exact .inr ⟨b', List.mem_cons_of_mem _ hb', rfl⟩

/-- A reading and the streams. -/
theorem Streams.recv (h : Streams p subscribers accepted) (n : ℕ) :
    Streams p (subscribers.modify n fun sub =>
      { sub with
        subscription := (p.recv sub.subscription).2
        results := sub.results ++ (p.recv sub.subscription).1.toList }) accepted where
  sequence := h.sequence
  numbers := h.numbers
  slot := h.slot
  subscriber sub hsub := by
    rcases mem_modify_cases hsub with hsub | ⟨sub', hsub', rfl⟩
    · exact h.subscriber sub hsub
    · obtain ⟨hsince, hslot, ch, hch, hclosed, htracks, hdrop⟩ := h.subscriber sub' hsub'
      have hrecv : p.recv sub'.subscription = ((ch.recv sub'.subscription.next).1,
          { sub'.subscription with next := (ch.recv sub'.subscription.next).2 }) := by
        simp [LivePublisher.recv, hch]
      rw [hrecv]
      exact ⟨hsince, hslot, ch, hch, hclosed, htracks.recv, hdrop⟩

/-! ### The answers to the operations -/

/-- An operation was a close and it was accepted. -/
def isAcceptedClose (outcome : LiveOp V E × Bool) : Bool := outcome.2 && outcome.1.isClose

/-- The event that an operation published. -/
def publishedEvent (outcome : LiveOp V E × Bool) : Option E :=
  if outcome.2 then outcome.1.event? else none

/-- The operations with their answers, against the publisher they have led to. -/
structure Outcomes (p : LivePublisher V E) (accepted : List (SequencedEvent E))
    (outcomes : List (LiveOp V E × Bool)) : Prop where
  order : accepted.map SequencedEvent.kind = outcomes.filterMap publishedEvent
  closes : outcomes.countP isAcceptedClose = if p.closed then 1 else 0
  tried : ∀ outcome ∈ outcomes, outcome.1.isClose = true → p.closed = true
  answers : Justified (fun before outcome =>
    outcome.2 = true ↔ before.countP isAcceptedClose = 0) outcomes
  terminal : ∀ view event, (LiveOp.closeWithTerminalEvent view event, true) ∈ outcomes →
    p.view = view ∧ (accepted.getLast?.map SequencedEvent.kind) = some event

variable {outcomes : List (LiveOp V E × Bool)}

theorem outcomes_new (view : V) (capacity : ℕ) :
    Outcomes (LivePublisher.new view capacity : LivePublisher V E) [] [] where
  order := rfl
  closes := rfl
  tried outcome h := by cases h
  answers := justified_nil
  terminal view event h := by cases h

/-- While the publisher is open no close has been accepted. -/
theorem Outcomes.not_mem_of_open (h : Outcomes p accepted outcomes) (hopen : p.closed = false)
    (view : V) (event : E) : (LiveOp.closeWithTerminalEvent view event, true) ∉ outcomes := by
  intro hmem
  have hclosed := h.tried _ hmem rfl
  rw [hopen] at hclosed
  cases hclosed

/-- The answer to an operation fits what was answered before. -/
theorem Outcomes.answer (h : Outcomes p accepted outcomes) (op : LiveOp V E) :
    (p.apply op).2 = true ↔ outcomes.countP isAcceptedClose = 0 := by
  rw [h.closes]
  rcases apply_cases p op with ⟨hclosed, happly⟩ | ⟨hopen, view, rfl, happly⟩ |
    ⟨hopen, -, view, event, -, happly⟩ | ⟨hopen, view, event, rfl, happly⟩
  · simp [happly, hclosed]
  · simp [happly, hopen]
  · simp [happly, hopen]
  · simp [happly, hopen]

/-- An operation and the answers. -/
theorem Outcomes.apply (h : Outcomes p accepted outcomes) (op : LiveOp V E) :
    Outcomes (p.apply op).1 (accepted ++ newEvents p op) (outcomes ++ [(op, (p.apply op).2)]) := by
  have hanswers : Justified _ (outcomes ++ [(op, (p.apply op).2)]) := h.answers.concat (h.answer op)
  rcases apply_cases p op with ⟨hclosed, happly⟩ | ⟨hopen, view, rfl, happly⟩ |
    ⟨hopen, hnot, view, event, hevent, happly⟩ | ⟨hopen, view, event, rfl, happly⟩
  · -- a closed publisher takes nothing
    rw [happly] at hanswers ⊢
    refine ⟨?_, ?_, fun _ _ _ => hclosed, hanswers, ?_⟩
    · simp [newEvents, happly, h.order, publishedEvent]
    · simp [h.closes, isAcceptedClose]
    · intro view event hmem
      have hmem : (LiveOp.closeWithTerminalEvent view event, true) ∈ outcomes := by simpa using hmem
      simpa [newEvents, happly] using h.terminal view event hmem
  · rw [happly] at hanswers ⊢
    refine ⟨?_, ?_, ?_, hanswers, ?_⟩
    · simp [newEvents, happly, h.order, publishedEvent, LiveOp.event?]
    · simp [h.closes, isAcceptedClose, LiveOp.isClose]
    · intro outcome hmem hclose
      rcases List.mem_append.1 hmem with hmem | hmem
      · exact h.tried outcome hmem hclose
      · rw [List.mem_singleton.1 hmem] at hclose
        cases hclose
    · intro view' event hmem
      exact absurd (by simpa using hmem) (h.not_mem_of_open hopen view' event)
  · rw [happly] at hanswers ⊢
    refine ⟨?_, ?_, ?_, hanswers, ?_⟩
    · simp [newEvents, happly, h.order, publishedEvent, hevent]
    · simp [h.closes, isAcceptedClose, hnot]
    · intro outcome hmem hclose
      rcases List.mem_append.1 hmem with hmem | hmem
      · simpa using h.tried outcome hmem hclose
      · rw [List.mem_singleton.1 hmem, hnot] at hclose
        cases hclose
    · intro view' event' hmem
      rcases List.mem_append.1 hmem with hmem | hmem
      · exact absurd hmem (h.not_mem_of_open hopen view' event')
      · rw [← (Prod.mk.inj (List.mem_singleton.1 hmem)).1] at hnot
        cases hnot
  · -- the last event closes it, and was not there before
    rw [happly] at hanswers ⊢
    refine ⟨?_, ?_, fun _ _ _ => rfl, hanswers, ?_⟩
    · simp [newEvents, happly, h.order, publishedEvent, LiveOp.event?]
    · simp [h.closes, isAcceptedClose, LiveOp.isClose, hopen]
    · intro view' event' hmem
      rcases List.mem_append.1 hmem with hmem | hmem
      · exact absurd hmem (h.not_mem_of_open hopen view' event')
      · obtain ⟨rfl, rfl⟩ : view' = view ∧ event' = event := by simpa using hmem
        simp [newEvents, happly, LiveOp.event?]

/-- Only operations have an influence on the answers. -/
theorem Outcomes.congr {p' : LivePublisher V E} (h : Outcomes p accepted outcomes)
    (hview : p'.view = p.view) (hclosed : p'.closed = p.closed) :
    Outcomes p' accepted outcomes where
  order := h.order
  closes := hclosed ▸ h.closes
  tried := hclosed ▸ h.tried
  answers := h.answers
  terminal := hview ▸ h.terminal

theorem subscribe_view (p : LivePublisher V E) : p.subscribe.1.view = p.view := by
  unfold LivePublisher.subscribe
  repeat' split
  all_goals rfl

theorem subscribe_closed (p : LivePublisher V E) : p.subscribe.1.closed = p.closed := by
  unfold LivePublisher.subscribe
  repeat' split
  all_goals rfl

/-! ### Every run -/

/-- What holds of a publisher and its subscribers at every time. -/
structure Sound (s : LiveSystem V E) : Prop where
  streams : Streams s.publisher s.subscribers s.accepted
  outcomes : Outcomes s.publisher s.accepted s.outcomes

theorem Sound.step {s : LiveSystem V E} (h : s.Sound) (i : LiveInput V E) : (s.step i).Sound := by
  cases i with
  | op op => exact ⟨h.streams.apply op, h.outcomes.apply op⟩
  | subscribe =>
      have hstreams := h.streams.subscribe
      have houtcomes := h.outcomes.congr (subscribe_view _) (subscribe_closed _)
      rcases hsub : s.publisher.subscribe with ⟨p, subscription⟩
      rw [hsub] at hstreams houtcomes
      simp only [LiveSystem.step, hsub]
      cases subscription with
      | none => exact ⟨by simpa using hstreams, houtcomes⟩
      | some subscription => exact ⟨hstreams, houtcomes⟩
  | recv n => exact ⟨h.streams.recv n, h.outcomes⟩

theorem Sound.of_reach {s : LiveSystem V E}
    (h : (liveSystem V E).Reach (fun _ _ => True) s) : s.Sound := by
  refine h.invariant ?_ ?_
  · rintro s ⟨view, capacity, rfl⟩
    exact ⟨streams_new view capacity, outcomes_new view capacity⟩
  · rintro s i t hs - rfl
    exact hs.step i

/-- What a subscriber reads of a channel: what it has read is followed by what is left for it, it
reads what is left in order unless it has fallen behind, and it reads that the stream is closed when
the publisher is closed and nothing is left. -/
structure Delivers (s : LiveSystem V E) (sub : Subscriber E)
    (ch : Broadcast (SequencedEvent E)) : Prop where
  channel : s.publisher.channels[sub.subscription.channel]? = some ch
  delivered : (∀ n, Reading.lagged n ∉ sub.results) →
    Reading.values sub.results ++ ch.sent.drop sub.subscription.next = s.accepted.drop sub.since
  finished : (∀ n, Reading.lagged n ∉ sub.results) → Reading.closed ∈ sub.results →
    s.publisher.closed = true ∧ ∃ k, sub.results =
      (s.accepted.drop sub.since).map .value ++ List.replicate (k + 1) .closed
  terminal : (∀ n, Reading.lagged n ∉ sub.results) → Reading.closed ∈ sub.results →
    sub.since < s.accepted.length → ∀ view event,
      (LiveOp.closeWithTerminalEvent view event, true) ∈ s.outcomes →
      (Reading.values sub.results).getLast?.map SequencedEvent.kind = some event
  rest : s.publisher.closed = true → ch.sent.length - sub.subscription.next ≤ ch.slots →
    ch.receive sub.subscription.next (ch.sent.length - sub.subscription.next + 1) =
      (ch.sent.drop sub.subscription.next).map .value ++ [.closed]

theorem Sound.delivers {s : LiveSystem V E} (h : s.Sound) {sub : Subscriber E}
    (hsub : sub ∈ s.subscribers) : ∃ ch, s.Delivers sub ch := by
  obtain ⟨-, -, ch, hch, hclosed, htracks, hdrop⟩ := h.streams.subscriber sub hsub
  have hdelivered (hlag : ∀ n, Reading.lagged n ∉ sub.results) :
      Reading.values sub.results ++ ch.sent.drop sub.subscription.next =
        s.accepted.drop sub.since := (htracks.values_append hlag).trans hdrop
  have hfinished (hlag : ∀ n, Reading.lagged n ∉ sub.results)
      (hend : Reading.closed ∈ sub.results) :
      Reading.values sub.results = s.accepted.drop sub.since := by
    rw [← hdelivered hlag, (htracks.ended hend).2, List.drop_length, List.append_nil]
  refine ⟨ch, hch, hdelivered, ?_, ?_, ?_⟩
  · intro hlag hend
    refine ⟨hclosed ▸ (htracks.ended hend).1, ?_⟩
    obtain ⟨k, hk⟩ := htracks.values hlag
    rw [← htracks.values_eq hlag, hfinished hlag hend] at hk
    cases k with
    | zero =>
        rw [hk, List.replicate_zero, List.append_nil] at hend
        obtain ⟨event, -, hevent⟩ := List.mem_map.1 hend
        cases hevent
    | succ k => exact ⟨k, hk⟩
  · intro hlag hend hsince view event hmem
    rw [hfinished hlag hend, List.getLast?_drop, if_neg (Nat.not_le.2 hsince)]
    exact (h.outcomes.terminal view event hmem).2
  · intro hshut hslots
    exact Broadcast.receive_closed (hclosed.trans hshut) htracks.le_length hslots

/-- What holds of the answers and of the events of a publisher. -/
structure ClosesOnce (s : LiveSystem V E) : Prop where
  numbers : s.accepted.length < 2 ^ 64 →
    s.accepted.map SequencedEvent.sequence = List.range' 1 s.accepted.length
  order : s.accepted.map SequencedEvent.kind = s.outcomes.filterMap publishedEvent
  one : (∃ outcome ∈ s.outcomes, outcome.1.isClose = true) →
    s.outcomes.countP isAcceptedClose = 1
  answers : ∀ before outcome after, s.outcomes = before ++ outcome :: after →
    (outcome.2 = true ↔ before.countP isAcceptedClose = 0)
  view : ∀ view event, (LiveOp.closeWithTerminalEvent view event, true) ∈ s.outcomes →
    s.publisher.view = view
  refused : ∀ op, (s.publisher.apply op).2 = false → (s.publisher.apply op).1 = s.publisher

theorem Sound.closesOnce {s : LiveSystem V E} (h : s.Sound) : s.ClosesOnce where
  numbers hlen := by
    rw [h.streams.numbers]
    refine (List.map_congr_left ?_).trans (List.map_id _)
    intro n hn
    have hle := (List.mem_range'_1.1 hn).2
    exact Nat.min_eq_left (by unfold usizeMax; omega)
  order := h.outcomes.order
  one := by
    rintro ⟨outcome, hmem, hclose⟩
    rw [h.outcomes.closes, h.outcomes.tried outcome hmem hclose]
    rfl
  answers := h.outcomes.answers
  view view event hmem := (h.outcomes.terminal view event hmem).1
  refused op hrefused := by
    rcases apply_cases s.publisher op with ⟨-, happly⟩ | ⟨-, view, rfl, happly⟩ |
      ⟨-, -, view, event, -, happly⟩ | ⟨-, view, event, rfl, happly⟩
    · rw [happly]
    all_goals
      rw [happly] at hrefused
      cases hrefused

end LiveSystem

/-- **Streams are gap-free and end once.** -/
theorem live_streams_gap_free {s : LiveSystem V E}
    (h : (liveSystem V E).Reach (fun _ _ => True) s) :
    s.ClosesOnce ∧ ∀ sub ∈ s.subscribers, ∃ ch, s.Delivers sub ch := by
  have hs := LiveSystem.Sound.of_reach h
  exact ⟨hs.closesOnce, fun _ hsub => hs.delivers hsub⟩

namespace Sample

/-- An event, a subscription, another event and the close, and then three readings. -/
def liveInputs : List (LiveInput ℕ ℕ) :=
  [.op (.emitWithoutViewChange 10), .subscribe, .op (.replaceViewAndEmit 1 11),
    .op (.closeWithTerminalEvent 2 12), .recv 0, .recv 0, .recv 0]

def liveRun : LiveSystem ℕ ℕ := liveInputs.foldl LiveSystem.step ⟨.new 0 8, [], [], []⟩

end Sample

/-- The subscriber reads the two events after its subscription and that the stream is closed. -/
theorem live_streams_gap_free_sample :
    Sample.liveRun.ClosesOnce ∧ (Sample.liveRun.subscribers.map Subscriber.results) =
      [[.value ⟨2, 11⟩, .value ⟨3, 12⟩, .closed]] :=
  ⟨(live_streams_gap_free (.foldl (fun _ _ => rfl) Sample.liveInputs (.init ⟨0, 8, rfl⟩))).1, rfl⟩

end Tortillas
