/-
**What the view of a peer holds after its handle has closed.**

`live/handle.rs`: the peer's own task publishes the state and the metrics of its peer, and other tasks close the handle:
the torrent when the peer disconnects, the hub when the torrent's scope goes.  Each of these is a call of the publisher
of `live/stream.rs`, and each call of the publisher is one section under its lock.

A publication is one such section.  Closing is two: the view is read, and later the publisher is closed with that view,
marked as not connected.  What the peer published in between is in the stream of events but is gone from the view.  Only
the view is at risk.  Whatever the order of the sections, the publisher closes once, and its last event says so.

Main definitions:

* `PeerHandle` — the publisher with its subscribers, and the calls that have read the view and not yet closed;
* `PeerHandle.EndsOnce`, `PeerHandle.ClosesWell` — what is asked of the events, and of the view as well;
* `PeerHandle.Fresh` — what a call that is about to close has read is still what was published last.

Main results:

* `PeerHandle.Kept.next` — what every section keeps;
* `PeerHandle.keepsUpdate_next` — a section loses an update exactly when it closes with a view that is not fresh;
* `last_update_kept_iff` — **closing loses no update exactly in the runs in which every close is fresh**.
-/

import Tortillas.LivePublisher
import Tortillas.Transactions
import Tortillas.TransferMetrics

set_option relaxedAutoImplicit false
set_option autoImplicit false

namespace Tortillas

/-! ### Views and events -/

structure PeerMetrics where
  transfer : TransferMetrics
  peerChoking : Bool
  peerInterested : Bool
  clientChoking : Bool
  clientInterested : Bool
  availablePieces : UInt64
  deriving DecidableEq

structure PeerView where
  address : Option SocketAddr
  client : Option String
  connected : Bool
  metrics : PeerMetrics
  deriving DecidableEq

inductive PeerEventKind
  | stateChanged
  | metricsChanged (metrics : PeerMetrics)
  | disconnected
  deriving DecidableEq

/-- The view of a peer that is gone. -/
def PeerView.gone (view : PeerView) : PeerView := { view with connected := false }

/-! ### One operation of a publisher -/

namespace LiveSystem

variable {V E : Type} {p : LivePublisher V E} {l : LiveSystem V E}

theorem apply_of_closed (h : p.closed = true) (op : LiveOp V E) : p.apply op = (p, false) := by
  rcases apply_cases p op with ⟨-, happly⟩ | ⟨hopen, -⟩ | ⟨hopen, -⟩ | ⟨hopen, -⟩
  · exact happly
  all_goals
    rw [h] at hopen
    cases hopen

/-- A publication that is accepted. -/
theorem apply_publish (h : p.closed = false) (view : V) (event : E) :
    (p.apply (.replaceViewAndEmit view event)).1.view = view ∧
      (p.apply (.replaceViewAndEmit view event)).1.closed = false ∧
      (p.apply (.replaceViewAndEmit view event)).2 = true := by
  rw [LivePublisher.apply, LivePublisher.replaceViewAndEmit]
  refine ⟨?_, (applyAndEmit_closed p _ event).trans h, ?_⟩
  · rw [LivePublisher.applyAndEmit, h, if_neg Bool.false_ne_true, sendIfSubscribed_view]
  · rw [applyAndEmit_snd, h]
    rfl

/-- A close that is accepted. -/
theorem apply_close (h : p.closed = false) (view : V) (event : E) :
    (p.apply (.closeWithTerminalEvent view event)).1.view = view ∧
      (p.apply (.closeWithTerminalEvent view event)).1.closed = true ∧
      (p.apply (.closeWithTerminalEvent view event)).2 = true := by
  rw [LivePublisher.apply, closeWithTerminalEvent_eq h]
  exact ⟨by rw [shut_view, sendIfSubscribed_view], shut_closed _, rfl⟩

/-- A closed publisher only answers. -/
theorem step_op_of_closed (h : l.publisher.closed = true) (op : LiveOp V E) :
    l.step (.op op) = { l with outcomes := l.outcomes ++ [(op, false)] } := by
  rw [step, newEvents, apply_of_closed h, if_neg Bool.false_ne_true, List.append_nil]

/-- A subscription is no operation. -/
theorem step_subscribe (l : LiveSystem V E) :
    (l.step .subscribe).publisher = l.publisher.subscribe.1 ∧ (l.step .subscribe).accepted = l.accepted ∧
      (l.step .subscribe).outcomes = l.outcomes := by
  rw [step]
  rcases l.publisher.subscribe with ⟨p, _ | subscription⟩ <;> exact ⟨rfl, rfl, rfl⟩

/-- An accepted operation publishes its event. -/
theorem kinds_step_op {op : LiveOp V E} {event : E} (haccepted : (l.publisher.apply op).2 = true)
    (hevent : op.event? = some event) :
    (l.step (.op op)).accepted.map SequencedEvent.kind = l.accepted.map SequencedEvent.kind ++ [event] := by
  rw [step, newEvents, if_pos haccepted, hevent, List.map_append]
  rfl

end LiveSystem

/-! ### The publications of a run -/

abbrev PeerOutcome := LiveOp PeerView PeerEventKind × Bool

/-- The view of a publication that was accepted. -/
def publishedView : PeerOutcome → Option PeerView
  | (.replaceViewAndEmit view _, true) => some view
  | _ => none

/-- The view of the last accepted publication, and the given one before any. -/
def lastView (view : PeerView) (outcomes : List PeerOutcome) : PeerView :=
  (outcomes.filterMap publishedView).getLast?.getD view

theorem lastView_append (view : PeerView) (before after : List PeerOutcome) :
    lastView view (before ++ after) = lastView (lastView view before) after := by
  rw [lastView, List.filterMap_append, List.getLast?_append, Option.getD_or]
  rfl

/-- What is no publication leaves the last one. -/
theorem lastView_concat {outcome : PeerOutcome} (h : publishedView outcome = none) (view : PeerView)
    (outcomes : List PeerOutcome) : lastView view (outcomes ++ [outcome]) = lastView view outcomes := by
  rw [lastView_append, lastView, List.filterMap_cons_none h]
  rfl

theorem lastView_drop (view : PeerView) (outcomes : List PeerOutcome) (n : ℕ) :
    lastView view outcomes = lastView (lastView view (outcomes.take n)) (outcomes.drop n) := by
  rw [← lastView_append, List.take_append_drop]

/-! ### The handle -/

/-- A call of `disconnected` or of `close_without_parent_event` between its two sections: the view that it has read,
marked as not connected, and how many operations the publisher had answered when it was read. -/
structure Closing where
  view : PeerView
  tellsParent : Bool
  readAt : ℕ
  deriving DecidableEq

/-- The handle of a peer.  A call that has returned leaves its place empty. -/
structure PeerHandle where
  live : LiveSystem PeerView PeerEventKind
  /-- Whether the hub still exists. -/
  hub : Bool
  calls : List (Option Closing)
  /-- How often the hub was told that the peer has disconnected. -/
  told : ℕ

/-- The sections, and what subscribers do. -/
inductive PeerHandleInput
  | publishState (view : PeerView)
  | publishMetrics (view : PeerView)
  | beginClose (tellsParent : Bool)
  | finishClose (call : ℕ)
  | dropHub
  | subscribe
  | recv (subscriber : ℕ)

namespace PeerHandle

variable {s : PeerHandle} {initial : PeerView}

def new (view : PeerView) (eventCapacity : ℕ) : PeerHandle where
  live := ⟨.new view eventCapacity, [], [], []⟩
  hub := true
  calls := []
  told := 0

def view (s : PeerHandle) : PeerView := s.live.publisher.view

def closed (s : PeerHandle) : Bool := s.live.publisher.closed

/-- The events that were accepted. -/
def events (s : PeerHandle) : List PeerEventKind := s.live.accepted.map SequencedEvent.kind

/-- A publication, whose answer is not looked at. -/
def publish (s : PeerHandle) (view : PeerView) (event : PeerEventKind) : PeerHandle :=
  { s with live := s.live.step (.op (.replaceViewAndEmit view event)) }

def publishState (s : PeerHandle) (view : PeerView) : PeerHandle := s.publish view .stateChanged

def publishMetrics (s : PeerHandle) (view : PeerView) : PeerHandle :=
  s.publish view (.metricsChanged view.metrics)

/-- The first section of `disconnected`, which tells the parent, and of `close_without_parent_event`. -/
def beginClose (s : PeerHandle) (tellsParent : Bool) : PeerHandle :=
  { s with calls := s.calls ++ [some ⟨s.view.gone, tellsParent, s.live.outcomes.length⟩] }

/-- Their second section. -/
def finishClose (s : PeerHandle) (k : ℕ) : PeerHandle :=
  match s.calls[k]?.join with
  | none => s
  | some call =>
      let op : LiveOp PeerView PeerEventKind := .closeWithTerminalEvent call.view .disconnected
      { s with
        live := s.live.step (.op op)
        calls := s.calls.set k none
        -- the hub is told only by the call that has closed the handle
        told := if (s.live.publisher.apply op).2 && call.tellsParent && s.hub then s.told + 1 else s.told }

def next (s : PeerHandle) : PeerHandleInput → PeerHandle
  | .publishState view => s.publishState view
  | .publishMetrics view => s.publishMetrics view
  | .beginClose tellsParent => s.beginClose tellsParent
  | .finishClose k => s.finishClose k
  | .dropHub => { s with hub := false }
  | .subscribe => { s with live := s.live.step .subscribe }
  | .recv n => { s with live := s.live.step (.recv n) }

/-! ### What is asked -/

/-- The handle closes with the first call that returns; `disconnected` is published then and not before, and no event
comes after it.  The hub is told at most once. -/
structure EndsOnce (s : PeerHandle) : Prop where
  closed : s.closed = true ↔ none ∈ s.calls
  before : s.closed = false → PeerEventKind.disconnected ∉ s.events
  last : s.closed = true → ∃ front, s.events = front ++ [.disconnected] ∧ PeerEventKind.disconnected ∉ front
  told : s.told ≤ s.closed.toNat

/-- A subscriber that has not fallen behind, and that has read to the end, has read `disconnected` last. -/
def EndsStreams (s : PeerHandle) : Prop :=
  ∀ sub ∈ s.live.subscribers, (∀ n, Reading.lagged n ∉ sub.results) → Reading.closed ∈ sub.results →
    sub.since < s.live.accepted.length →
    (Reading.values sub.results).getLast?.map SequencedEvent.kind = some .disconnected

/-- The view of a handle that has closed is that of the last accepted publication, not connected. -/
def KeepsUpdate (initial : PeerView) (s : PeerHandle) : Prop :=
  s.closed = true → s.view = (lastView initial s.live.outcomes).gone

/-- What is asked of closing. -/
structure ClosesWell (initial : PeerView) (s : PeerHandle) : Prop where
  ends : s.EndsOnce
  streams : s.EndsStreams
  update : s.KeepsUpdate initial

/-- If the call is about to close the handle, then nothing was published since it read the view, or what was published
last is what it read, but for `connected`. -/
def Fresh (s : PeerHandle) : PeerHandleInput → Prop
  | .finishClose k => s.closed = false → ∀ call, s.calls[k]?.join = some call →
      ∀ view ∈ ((s.live.outcomes.drop call.readAt).filterMap publishedView).getLast?, view.gone = call.view
  | _ => True

/-! ### What a section does -/

theorem publish_of_closed (h : s.closed = true) (view : PeerView) (event : PeerEventKind) :
    s.publish view event =
      { s with live.outcomes := s.live.outcomes ++ [(.replaceViewAndEmit view event, false)] } := by
  rw [publish, LiveSystem.step_op_of_closed h]

theorem finishClose_of_closed (h : s.closed = true) {k : ℕ} {call : Closing} (hcall : s.calls[k]?.join = some call) :
    s.finishClose k =
      { s with
        live.outcomes := s.live.outcomes ++ [(.closeWithTerminalEvent call.view .disconnected, false)]
        calls := s.calls.set k none } := by
  rw [finishClose, hcall]
  simp only [LiveSystem.step_op_of_closed h, LiveSystem.apply_of_closed h, Bool.false_and, Bool.false_eq_true,
    if_false]

theorem finishClose_of_none {k : ℕ} (hcall : s.calls[k]?.join = none) : s.finishClose k = s := by
  rw [finishClose, hcall]

/-- What is left by a publication that is accepted. -/
theorem publish_of_open (h : s.closed = false) (view : PeerView) (event : PeerEventKind) :
    (s.publish view event).view = view ∧ (s.publish view event).closed = false ∧
      (s.publish view event).events = s.events ++ [event] ∧
      (s.publish view event).live.outcomes = s.live.outcomes ++ [(.replaceViewAndEmit view event, true)] := by
  obtain ⟨hview, hclosed, haccepted⟩ := LiveSystem.apply_publish h view event
  refine ⟨hview, hclosed, LiveSystem.kinds_step_op haccepted rfl, ?_⟩
  rw [publish, LiveSystem.step, haccepted]

/-- What is left by the call that closes the handle. -/
theorem finishClose_of_open (h : s.closed = false) {k : ℕ} {call : Closing} (hcall : s.calls[k]?.join = some call) :
    (s.finishClose k).view = call.view ∧ (s.finishClose k).closed = true ∧
      (s.finishClose k).events = s.events ++ [.disconnected] ∧
      (s.finishClose k).live.outcomes =
        s.live.outcomes ++ [(.closeWithTerminalEvent call.view .disconnected, true)] ∧
      (s.finishClose k).calls = s.calls.set k none ∧ (s.finishClose k).told ≤ s.told + 1 := by
  obtain ⟨hview, hclosed, haccepted⟩ := LiveSystem.apply_close h call.view PeerEventKind.disconnected
  rw [finishClose, hcall]
  refine ⟨hview, hclosed, LiveSystem.kinds_step_op haccepted rfl, ?_, rfl, ?_⟩
  · simp only [LiveSystem.step, haccepted]
  · dsimp only
    split <;> omega

/-! ### Every run -/

/-- What a call has read: the view of the last publication at that time, marked as not connected. -/
def Holds (initial : PeerView) (s : PeerHandle) (call : Closing) : Prop :=
  call.view = (lastView initial (s.live.outcomes.take call.readAt)).gone ∧ call.readAt ≤ s.live.outcomes.length

/-- What every section keeps. -/
structure Kept (initial : PeerView) (s : PeerHandle) : Prop where
  live : s.live.Sound
  ends : s.EndsOnce
  view : s.closed = false → s.view = lastView initial s.live.outcomes
  held : s.closed = false → ∀ call, some call ∈ s.calls → s.Holds initial call

theorem kept_new (initial : PeerView) (eventCapacity : ℕ) : (new initial eventCapacity).Kept initial where
  live := ⟨LiveSystem.streams_new initial eventCapacity, LiveSystem.outcomes_new initial eventCapacity⟩
  ends := ⟨⟨nofun, nofun⟩, fun _ => nofun, nofun, Nat.le_refl 0⟩
  view _ := rfl
  held _ _ := nofun

/-- What was read stays what was published last at the time of the reading. -/
theorem Holds.append {call : Closing} (h : s.Holds initial call) {t : PeerHandle} {outcome : PeerOutcome}
    (ht : t.live.outcomes = s.live.outcomes ++ [outcome]) : t.Holds initial call := by
  obtain ⟨hview, hle⟩ := h
  refine ⟨?_, ?_⟩
  · rw [ht, List.take_append_of_le_length hle]
    exact hview
  · rw [ht, List.length_append]
    omega

theorem some_mem_of_join {k : ℕ} {call : Closing} (hcall : s.calls[k]?.join = some call) : some call ∈ s.calls :=
  List.mem_of_getElem? (Option.join_eq_some_iff.1 hcall)

theorem none_mem_set {k : ℕ} {call : Closing} (hcall : s.calls[k]?.join = some call) :
    none ∈ s.calls.set k none := by
  obtain ⟨hk, -⟩ := List.getElem?_eq_some_iff.1 (Option.join_eq_some_iff.1 hcall)
  exact List.mem_set hk none

theorem EndsOnce.told_eq_zero (h : s.EndsOnce) (hopen : s.closed = false) : s.told = 0 := by
  have htold := h.told
  rw [hopen] at htold
  exact Nat.le_zero.1 htold

theorem Kept.publish (h : s.Kept initial) (view : PeerView) {event : PeerEventKind} (hevent : event ≠ .disconnected) :
    (s.publish view event).Kept initial := by
  have hlive : (s.publish view event).live.Sound := h.live.step (.op (.replaceViewAndEmit view event))
  cases hclosed : s.closed with
  | true =>
      have heq := publish_of_closed hclosed view event
      rw [heq] at hlive ⊢
      refine ⟨hlive, ⟨h.ends.closed, h.ends.before, h.ends.last, h.ends.told⟩, ?_, ?_⟩
      all_goals
        intro hopen
        exact absurd (hclosed.symm.trans hopen) nofun
  | false =>
      obtain ⟨hview, hopen, hevents, houtcomes⟩ := publish_of_open hclosed view event
      refine ⟨hlive, ⟨?_, ?_, ?_, ?_⟩, ?_, ?_⟩
      · -- no call has returned
        rw [hopen, ← hclosed]
        exact h.ends.closed
      · intro _ hmem
        rw [hevents] at hmem
        rcases List.mem_append.1 hmem with hmem | hmem
        · exact h.ends.before hclosed hmem
        · exact hevent (List.mem_singleton.1 hmem).symm
      · intro hshut
        exact absurd (hopen.symm.trans hshut) nofun
      · exact (h.ends.told_eq_zero hclosed).trans_le (Nat.zero_le _)
      · intro _
        rw [hview, houtcomes, lastView_append]
        rfl
      · intro _ call hcall
        exact (h.held hclosed call hcall).append houtcomes

theorem Kept.beginClose (h : s.Kept initial) (tellsParent : Bool) : (s.beginClose tellsParent).Kept initial where
  live := h.live
  ends := by
    refine ⟨h.ends.closed.trans ?_, h.ends.before, h.ends.last, h.ends.told⟩
    rw [PeerHandle.beginClose, List.mem_append, or_iff_left (by simp)]
  view := h.view
  held hopen call hcall := by
    rcases List.mem_append.1 hcall with hcall | hcall
    · exact h.held hopen call hcall
    · -- the call has read the view just now
      cases List.mem_singleton.1 hcall
      refine ⟨?_, Nat.le_refl _⟩
      rw [h.view hopen]
      exact congrArg (fun outcomes => (lastView initial outcomes).gone) List.take_length.symm

theorem Kept.finishClose (h : s.Kept initial) (k : ℕ) : (s.finishClose k).Kept initial := by
  cases hcall : s.calls[k]?.join with
  | none =>
      rw [finishClose_of_none hcall]
      exact h
  | some call =>
      have hlive : (s.finishClose k).live.Sound := by
        rw [PeerHandle.finishClose, hcall]
        exact h.live.step (.op (.closeWithTerminalEvent call.view .disconnected))
      cases hclosed : s.closed with
      | true =>
          rw [finishClose_of_closed hclosed hcall] at hlive ⊢
          refine ⟨hlive, ⟨?_, h.ends.before, h.ends.last, h.ends.told⟩, ?_, ?_⟩
          · exact iff_of_true hclosed (none_mem_set hcall)
          all_goals
            intro hopen
            exact absurd (hclosed.symm.trans hopen) nofun
      | false =>
          obtain ⟨-, hshut, hevents, houtcomes, hcalls, htold⟩ := finishClose_of_open hclosed hcall
          refine ⟨hlive, ⟨?_, ?_, ?_, ?_⟩, ?_, ?_⟩
          · exact iff_of_true hshut (hcalls ▸ none_mem_set hcall)
          · intro hopen
            exact absurd (hshut.symm.trans hopen) nofun
          · intro _
            exact ⟨s.events, hevents, h.ends.before hclosed⟩
          · rw [h.ends.told_eq_zero hclosed] at htold
            rw [hshut]
            exact htold
          all_goals
            intro hopen
            exact absurd (hshut.symm.trans hopen) nofun

theorem Kept.subscribe (h : s.Kept initial) : { s with live := s.live.step .subscribe }.Kept initial := by
  obtain ⟨hpublisher, haccepted, houtcomes⟩ := LiveSystem.step_subscribe s.live
  have hview : (s.live.step .subscribe).publisher.view = s.view :=
    (congrArg LivePublisher.view hpublisher).trans (LiveSystem.subscribe_view _)
  have hclosed : (s.live.step .subscribe).publisher.closed = s.closed :=
    (congrArg LivePublisher.closed hpublisher).trans (LiveSystem.subscribe_closed _)
  refine ⟨h.live.step .subscribe, ⟨?_, ?_, ?_, ?_⟩, ?_, ?_⟩
  all_goals simp only [PeerHandle.closed, PeerHandle.view, PeerHandle.events, Holds, hview, hclosed, haccepted, houtcomes]
  · exact h.ends.closed
  · exact h.ends.before
  · exact h.ends.last
  · exact h.ends.told
  · exact h.view
  · exact h.held

theorem Kept.next (h : s.Kept initial) (i : PeerHandleInput) : (s.next i).Kept initial := by
  cases i with
  | publishState view => exact h.publish view nofun
  | publishMetrics view => exact h.publish view nofun
  | beginClose tellsParent => exact h.beginClose tellsParent
  | finishClose k => exact h.finishClose k
  | dropHub => exact ⟨h.live, ⟨h.ends.closed, h.ends.before, h.ends.last, h.ends.told⟩, h.view, h.held⟩
  | subscribe => exact h.subscribe
  | recv n =>
      exact ⟨h.live.step (.recv n), ⟨h.ends.closed, h.ends.before, h.ends.last, h.ends.told⟩, h.view, h.held⟩

/-- The stream of a subscriber ends as the record of the events does. -/
theorem Kept.endsStreams (h : s.Kept initial) : s.EndsStreams := by
  intro sub hsub hlag hend hsince
  obtain ⟨ch, hdelivers⟩ := h.live.delivers hsub
  obtain ⟨hclosed, k, hk⟩ := hdelivers.finished hlag hend
  obtain ⟨front, hfront, -⟩ := h.ends.last hclosed
  have hvalues : Reading.values sub.results = s.live.accepted.drop sub.since := by
    rw [hk, Reading.values_append, Reading.values_map_value, Reading.values_replicate_closed, List.append_nil]
  rw [hvalues, List.getLast?_drop, if_neg (Nat.not_le.2 hsince), ← List.getLast?_map]
  exact (congrArg List.getLast? hfront).trans List.getLast?_concat

/-- The view that a call has read is that of the last publication exactly when it is fresh. -/
theorem Holds.eq_gone_iff {call : Closing} (h : s.Holds initial call) :
    call.view = (lastView initial s.live.outcomes).gone ↔
      ∀ view ∈ ((s.live.outcomes.drop call.readAt).filterMap publishedView).getLast?, view.gone = call.view := by
  rw [lastView_drop initial s.live.outcomes call.readAt, lastView]
  cases ((s.live.outcomes.drop call.readAt).filterMap publishedView).getLast? with
  | none => exact iff_of_true h.1 nofun
  | some view => simp only [Option.getD_some, Option.mem_some_iff, forall_eq', eq_comm]

/-- A section that leaves the view and the last publication of a handle that has closed, and that does not close it,
loses nothing. -/
theorem keepsUpdate_congr {t : PeerHandle} (hclosed : t.closed = s.closed)
    (h : s.closed = true → t.view = s.view ∧ lastView initial t.live.outcomes = lastView initial s.live.outcomes) :
    t.KeepsUpdate initial ↔ s.KeepsUpdate initial := by
  rw [KeepsUpdate, KeepsUpdate, hclosed]
  refine imp_congr_right fun hshut => ?_
  rw [(h hshut).1, (h hshut).2]

theorem keepsUpdate_of_open (h : s.closed = false) : s.KeepsUpdate initial := fun hshut =>
  absurd (h.symm.trans hshut) nofun

theorem keepsUpdate_publish (view : PeerView) (event : PeerEventKind) :
    (s.publish view event).KeepsUpdate initial ↔ s.KeepsUpdate initial := by
  cases hclosed : s.closed with
  | true =>
      rw [publish_of_closed hclosed]
      exact keepsUpdate_congr rfl fun _ => ⟨rfl, lastView_concat rfl initial _⟩
  | false =>
      obtain ⟨-, hopen, -⟩ := publish_of_open hclosed view event
      exact iff_of_true (keepsUpdate_of_open hopen) (keepsUpdate_of_open hclosed)

/-- **Closing loses an update exactly when the view is not fresh.** -/
theorem keepsUpdate_finishClose (h : s.Kept initial) (k : ℕ) :
    (s.finishClose k).KeepsUpdate initial ↔ s.KeepsUpdate initial ∧ s.Fresh (.finishClose k) := by
  cases hcall : s.calls[k]?.join with
  | none =>
      rw [finishClose_of_none hcall, and_iff_left]
      rintro - call hother
      cases hcall.symm.trans hother
  | some call =>
      cases hclosed : s.closed with
      | true =>
          rw [finishClose_of_closed hclosed hcall, and_iff_left]
          · exact keepsUpdate_congr rfl fun _ => ⟨rfl, lastView_concat rfl initial _⟩
          · intro hopen
            cases hclosed.symm.trans hopen
      | false =>
          obtain ⟨hview, hshut, -, houtcomes, -⟩ := finishClose_of_open hclosed hcall
          have hlast : lastView initial (s.finishClose k).live.outcomes = lastView initial s.live.outcomes := by
            rw [houtcomes]
            exact lastView_concat rfl initial _
          have hholds := h.held hclosed call (some_mem_of_join hcall)
          rw [and_iff_right (keepsUpdate_of_open hclosed), KeepsUpdate, hlast, hview, forall_prop_of_true hshut,
            hholds.eq_gone_iff]
          constructor
          · rintro hfresh - other hother
            cases hcall.symm.trans hother
            exact hfresh
          · intro hfresh
            exact hfresh hclosed call hcall

/-- A section loses an update exactly when it closes with a view that is not fresh. -/
theorem keepsUpdate_next (h : s.Kept initial) (i : PeerHandleInput) :
    (s.next i).KeepsUpdate initial ↔ s.KeepsUpdate initial ∧ s.Fresh i := by
  cases i with
  | publishState view => exact (keepsUpdate_publish view _).trans (and_iff_left trivial).symm
  | publishMetrics view => exact (keepsUpdate_publish view _).trans (and_iff_left trivial).symm
  | finishClose k => exact keepsUpdate_finishClose h k
  | beginClose tellsParent => exact (and_iff_left trivial).symm
  | dropHub => exact (and_iff_left trivial).symm
  | recv n => exact (and_iff_left trivial).symm
  | subscribe =>
      obtain ⟨hpublisher, -, houtcomes⟩ := LiveSystem.step_subscribe s.live
      refine (keepsUpdate_congr ?_ fun _ => ⟨?_, congrArg (lastView initial) houtcomes⟩).trans
        (and_iff_left trivial).symm
      · exact (congrArg LivePublisher.closed hpublisher).trans (LiveSystem.subscribe_closed _)
      · exact (congrArg LivePublisher.view hpublisher).trans (LiveSystem.subscribe_view _)

end PeerHandle

/-- **Closing loses no update exactly in the runs in which every close is fresh.**  The events end as they should in
every run. -/
theorem last_update_kept_iff (initial : PeerView) (eventCapacity : ℕ) (inputs : List PeerHandleInput) :
    let s := inputs.foldl PeerHandle.next (.new initial eventCapacity)
    (s.ClosesWell initial ↔ System.Along PeerHandle.Fresh PeerHandle.next (.new initial eventCapacity) inputs) ∧
      s.EndsOnce ∧ s.EndsStreams := by
  intro s
  have hnew := PeerHandle.kept_new initial eventCapacity
  have hkept : s.Kept initial := by
    refine List.foldlRecOn inputs PeerHandle.next hnew ?_
    intro t ht i _
    exact ht.next i
  have hupdate : s.KeepsUpdate initial ↔
      System.Along PeerHandle.Fresh PeerHandle.next (.new initial eventCapacity) inputs := by
    refine (System.along_iff (fun t i ht => ht.next i) (fun t i ht => PeerHandle.keepsUpdate_next ht i) inputs
      hnew).trans (and_iff_right ?_)
    exact PeerHandle.keepsUpdate_of_open rfl
  refine ⟨⟨fun h => hupdate.1 h.update, fun h => ⟨hkept.ends, hkept.endsStreams, hupdate.2 h⟩⟩, hkept.ends,
    hkept.endsStreams⟩

namespace Sample

def connectedPeerView : PeerView where
  address := some nodeAddr
  client := some "Transmission"
  connected := true
  metrics := ⟨⟨⟨⟨0⟩, ⟨0⟩⟩, []⟩, false, false, false, false, 0⟩

/-- The peer has sent sixteen more bytes. -/
def updatedPeerView : PeerView :=
  { connectedPeerView with metrics.transfer.totals := ⟨⟨16⟩, ⟨0⟩⟩ }

/-- The torrent reads the view, the peer's task publishes, and the torrent closes the handle. -/
def lateClose : List PeerHandleInput :=
  [.subscribe, .beginClose true, .publishMetrics updatedPeerView, .finishClose 0, .recv 0, .recv 0]

def lateCloseRun : PeerHandle := lateClose.foldl PeerHandle.next (.new connectedPeerView 8)

end Sample

/-- A handle that is closed after the publication keeps it. -/
example : ([.publishMetrics Sample.updatedPeerView, .beginClose true, .finishClose 0].foldl PeerHandle.next
    (.new Sample.connectedPeerView 8)).view = Sample.updatedPeerView.gone := by decide

/-- **An update is lost.**  The subscriber has read of sixteen bytes and then that the peer has disconnected; the view of
the handle says that there were none. -/
theorem last_update_lost :
    Sample.lateCloseRun.live.subscribers.map Subscriber.results =
        [[.value ⟨1, .metricsChanged Sample.updatedPeerView.metrics⟩, .value ⟨2, .disconnected⟩]] ∧
      Sample.lateCloseRun.view = Sample.connectedPeerView.gone ∧
      ¬ Sample.lateCloseRun.ClosesWell Sample.connectedPeerView := by
  refine ⟨rfl, rfl, ?_⟩
  intro h
  have hview : Sample.connectedPeerView.gone = Sample.updatedPeerView.gone := h.update rfl
  exact absurd hview (by decide)

end Tortillas
