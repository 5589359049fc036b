/-
**The timers of the announces.**

A tracker actor announces from time to time.  When it starts, `on_start` asks the scheduler for a first timer,
and without one the actor does not start.  Each announce ends with `schedule_next_announce`, which aborts the
timer whose handle is in `next_announce` and asks for the next one; if the scheduler does not answer, it only
logs the error.  Announces are also asked for by users, in the same mailbox.

No handler looks at the mailbox or at whether a timer has fired.  So what is sent while a handler runs, and a
timer that fires before the handler aborts it, may as well have come before the handler started.

Main definitions:

* `AnnounceSettings`, `AnnounceSettings.announceDelay` — how long a timer waits;
* `AnnouncingTracker` — a tracker actor with its timers and its mailbox;
* `AnnouncingTracker.onStart`, `AnnouncingTracker.scheduleNextAnnounce`, `AnnouncingTracker.announce`;
* `AnnouncingTracker.Answered` — the steps that keep the chain of announces going.

Main results:

* `AnnounceSettings.announceDelay_mem` — the delay is between its bounds, whatever the tracker says;
* `AnnouncingTracker.chained_announce_iff` — an announce leaves a timer or another announce exactly when the
  scheduler answers or another announce waits;
* `announce_chain` — **there is never more than one timer, and while the scheduler answers there is always
  one, or an announce**.
-/

import Tortillas.HeldTimers
import Tortillas.UdpTracker

set_option relaxedAutoImplicit false
set_option autoImplicit false

namespace Tortillas

/-! ### Delays -/

/-- The settings that the timers depend on; times are in nanoseconds. -/
structure AnnounceSettings where
  initialAnnounceDelay : ℕ := 0
  minimumAnnounceInterval : ℕ := 1 * 10 ^ 9
  maximumAnnounceInterval : ℕ := 3600 * 10 ^ 9
  fallbackAnnounceInterval : ℕ := 60 * 10 ^ 9

/-- `u32::MAX as usize` -/
def u32Max : ℕ := 2 ^ 32 - 1

namespace AnnounceSettings

/-- The upper bound, which is no less than the lower one. -/
def longestInterval (settings : AnnounceSettings) : ℕ :=
  max settings.maximumAnnounceInterval settings.minimumAnnounceInterval

/-- The delay of the next announce, from the interval that the tracker has asked for. -/
def announceDelay (settings : AnnounceSettings) (interval : ℕ) : ℕ :=
  let delay :=
    if interval = usizeMax ∨ interval = u32Max then settings.fallbackAnnounceInterval
    else interval * 10 ^ 9
  min (max delay settings.minimumAnnounceInterval) settings.longestInterval

/-- **The delay is between its bounds**, whatever the interval. -/
theorem announceDelay_mem (settings : AnnounceSettings) (interval : ℕ) :
    settings.minimumAnnounceInterval ≤ settings.announceDelay interval ∧
      settings.announceDelay interval ≤ settings.longestInterval := by
  have hbounds : settings.minimumAnnounceInterval ≤ settings.longestInterval := le_max_right _ _
  exact ⟨le_min (le_max_right _ _) hbounds, min_le_right _ _⟩

end AnnounceSettings

/-! ### The tracker with its timers -/

/-- Which of the two places sets a timer. -/
inductive TimerSetter
  | onStart
  | scheduleNextAnnounce
  deriving DecidableEq

structure AnnounceTimer where
  setter : TimerSetter
  delay : ℕ
  deriving DecidableEq

/-- The trackers that a tracker actor can talk to. -/
inductive TrackerKind
  | udp
  | http

/-- The interval before the first answer, and of an answer that names none. -/
def TrackerKind.noInterval : TrackerKind → ℕ
  | .udp => u32Max
  | .http => usizeMax

/-- What a tracker actor finds in its mailbox. -/
inductive TrackerRequested
  | announce
  | update (update : TrackerUpdate)

/-- What comes of the announce of a tracker. -/
inductive AnnounceOutcome
  /-- The peers of the answer go to the torrent. -/
  | answered (interval : Option ℕ)
  | failed
  /-- The actor stops. -/
  | panicked

structure AnnouncingTracker where
  alive : Bool
  /-- `tracker.interval()` -/
  interval : ℕ
  timers : HeldTimers AnnounceTimer
  mailbox : List TrackerRequested

inductive AnnouncingInput
  /-- `on_start`, at the end of which the scheduler answers or does not. -/
  | start (scheduled : Bool)
  | fire (timer : ℕ)
  /-- A message gets into the mailbox: a forced announce, or an update. -/
  | post (m : TrackerRequested)
  /-- The next message is handled. -/
  | process (outcome : AnnounceOutcome) (scheduled : Bool)
  | stop

namespace AnnouncingTracker

variable (settings : AnnounceSettings) (kind : TrackerKind)

/-- `next_announce` -/
def nextAnnounce (s : AnnouncingTracker) : Option ℕ := s.timers.handle

def onStart (scheduled : Bool) (s : AnnouncingTracker) : AnnouncingTracker :=
  if scheduled then
    { s with
      alive := true
      interval := kind.noInterval
      timers := s.timers.hold ⟨.onStart, settings.initialAnnounceDelay⟩ }
  else s

/-- The handle is taken, and the actor is there no more. -/
def onStop (s : AnnouncingTracker) : AnnouncingTracker :=
  { s with alive := false, timers := s.timers.abort }

def scheduleNextAnnounce (scheduled : Bool) (s : AnnouncingTracker) : AnnouncingTracker :=
  if scheduled then
    { s with timers := s.timers.abort.hold ⟨.scheduleNextAnnounce, settings.announceDelay s.interval⟩ }
  else { s with timers := s.timers.abort }

def announce (outcome : AnnounceOutcome) (scheduled : Bool) (s : AnnouncingTracker) : AnnouncingTracker :=
  match outcome with
  | .answered interval =>
      { s with interval := interval.getD kind.noInterval }.scheduleNextAnnounce settings scheduled
  | .failed => s.scheduleNextAnnounce settings scheduled
  | .panicked => s.onStop

/-- Updates touch neither the timers nor the interval. -/
def process (outcome : AnnounceOutcome) (scheduled : Bool) (s : AnnouncingTracker) : AnnouncingTracker :=
  match s.mailbox with
  | [] => s
  | .announce :: ms => { s with mailbox := ms }.announce settings kind outcome scheduled
  | .update _ :: ms => { s with mailbox := ms }

/-- A timer sends its message. -/
def fire (timer : ℕ) (s : AnnouncingTracker) : AnnouncingTracker :=
  if s.timers.live.contains timer then
    { s with timers := s.timers.fire timer, mailbox := s.mailbox ++ [.announce] }
  else s

def apply (s : AnnouncingTracker) : AnnouncingInput → AnnouncingTracker
  | .start scheduled => s.onStart settings kind scheduled
  | .fire timer => s.fire timer
  | .post m => { s with mailbox := s.mailbox ++ [m] }
  | .process outcome scheduled => s.process settings kind outcome scheduled
  | .stop => s.onStop

/-- An actor that has stopped may be started again. -/
def Admits (s : AnnouncingTracker) : AnnouncingInput → Prop
  | .start _ => s.alive = false
  | .process _ _ => s.alive = true
  | .stop => s.alive = true
  | _ => True

def new : AnnouncingTracker := ⟨false, kind.noInterval, .new, []⟩

end AnnouncingTracker

/-- A tracker actor and its timers as a transition system. -/
def announcingSystem (settings : AnnounceSettings) (kind : TrackerKind) :
    System AnnouncingTracker AnnouncingInput where
  init s := s = .new kind
  step s i t := s.Admits i ∧ t = s.apply settings kind i

namespace AnnouncingTracker

/-! ### The chain of announces -/

/-- An announce is in the mailbox. -/
def Waits (s : AnnouncingTracker) : Prop := TrackerRequested.announce ∈ s.mailbox

/-- The timer that is held is live, or an announce waits. -/
def Chained (s : AnnouncingTracker) : Prop := s.timers.Going ∨ s.Waits

/-- If an announce is handled, then the scheduler answers, or another announce waits. -/
def Answered (s : AnnouncingTracker) : AnnouncingInput → Prop
  | .process _ scheduled =>
      ∀ ms, s.mailbox = .announce :: ms → scheduled = true ∨ TrackerRequested.announce ∈ ms
  | _ => True

/-- The delays of a timer, by the place that sets it. -/
def InBounds (settings : AnnounceSettings) (timer : AnnounceTimer) : Prop :=
  match timer.setter with
  | .onStart => timer.delay = settings.initialAnnounceDelay
  | .scheduleNextAnnounce =>
      settings.minimumAnnounceInterval ≤ timer.delay ∧ timer.delay ≤ settings.longestInterval

/-- **The invariant of the timers**: there is one at most, and none of an actor that has stopped. -/
structure Timed (settings : AnnounceSettings) (s : AnnouncingTracker) : Prop where
  single : s.timers.Single
  quiet : s.alive = false → ∀ timer, s.timers.live.get? timer = none
  delays : s.timers.All (InBounds settings)

variable {settings : AnnounceSettings} {kind : TrackerKind} {s : AnnouncingTracker}

theorem Timed.onStart (hs : s.Timed settings) (hstopped : s.alive = false) (scheduled : Bool) :
    (s.onStart settings kind scheduled).Timed settings := by
  unfold AnnouncingTracker.onStart
  split
  · exact ⟨HeldTimers.single_hold (hs.quiet hstopped), nofun, hs.delays.hold rfl⟩
  · exact hs

theorem Timed.onStop (hs : s.Timed settings) : s.onStop.Timed settings :=
  ⟨hs.single.abort, fun _ => hs.single.get?_abort, hs.delays.abort⟩

theorem Timed.fire (hs : s.Timed settings) (timer : ℕ) : (s.fire timer).Timed settings := by
  unfold AnnouncingTracker.fire
  split
  · refine ⟨hs.single.fire timer, fun hstopped other => ?_, hs.delays.fire timer⟩
    change (s.timers.live.erase timer).get? other = none
    rw [HashMap.get?_erase, hs.quiet hstopped other]
    exact ite_self _
  · exact hs

theorem Timed.scheduleNextAnnounce (hs : s.Timed settings) (halive : s.alive = true) (scheduled : Bool) :
    (s.scheduleNextAnnounce settings scheduled).Timed settings := by
  unfold AnnouncingTracker.scheduleNextAnnounce
  split
  · refine ⟨hs.single.replace, fun hstopped => ?_, hs.delays.abort.hold ?_⟩
    · cases halive.symm.trans hstopped
    · exact settings.announceDelay_mem s.interval
  · exact ⟨hs.single.abort, fun _ => hs.single.get?_abort, hs.delays.abort⟩

/-- The timers and whether the actor lives are all that matters. -/
theorem Timed.of_eq {t : AnnouncingTracker} (hs : s.Timed settings) (htimers : t.timers = s.timers)
    (halive : t.alive = s.alive) : t.Timed settings := by
  refine ⟨?_, ?_, ?_⟩
  · rw [htimers]
    exact hs.single
  · rw [htimers, halive]
    exact hs.quiet
  · rw [htimers]
    exact hs.delays

theorem Timed.announce (hs : s.Timed settings) (halive : s.alive = true) (outcome : AnnounceOutcome)
    (scheduled : Bool) : (s.announce settings kind outcome scheduled).Timed settings := by
  cases outcome with
  | answered interval =>
      have hsame : ({ s with interval := interval.getD kind.noInterval } : AnnouncingTracker).Timed settings :=
        hs.of_eq rfl rfl
      exact hsame.scheduleNextAnnounce halive scheduled
  | failed => exact hs.scheduleNextAnnounce halive scheduled
  | panicked => exact hs.onStop

theorem Timed.apply (hs : s.Timed settings) {i : AnnouncingInput} (hi : s.Admits i) :
    (s.apply settings kind i).Timed settings := by
  cases i with
  | start scheduled => exact hs.onStart hi scheduled
  | fire timer => exact hs.fire timer
  | post m => exact hs.of_eq rfl rfl
  | stop => exact hs.onStop
  | process outcome scheduled =>
      change (s.process settings kind outcome scheduled).Timed settings
      unfold process
      split
      · exact hs
      · rename_i ms _
        have hrest : ({ s with mailbox := ms } : AnnouncingTracker).Timed settings := hs.of_eq rfl rfl
        exact hrest.announce hi outcome scheduled
      · exact hs.of_eq rfl rfl

theorem timed_of_reach {G : AnnouncingTracker → AnnouncingInput → Prop}
    (h : (announcingSystem settings kind).Reach G s) : s.Timed settings := by
  refine h.invariant (I := Timed settings) ?_ ?_
  · rintro t rfl
    exact ⟨HeldTimers.single_new, fun _ => HeldTimers.get?_live_new, HeldTimers.all_new⟩
  · rintro t i u ht - ⟨hadmits, rfl⟩
    exact ht.apply hadmits

theorem chained_scheduleNextAnnounce_iff (scheduled : Bool) (s : AnnouncingTracker) :
    (s.scheduleNextAnnounce settings scheduled).Chained ↔ scheduled = true ∨ s.Waits := by
  cases scheduled with
  | true => exact iff_of_true (.inl (HeldTimers.going_hold _ _)) (.inl rfl)
  | false =>
      have hnone : ¬s.timers.abort.Going := s.timers.not_going_abort
      exact ⟨fun h => h.imp (fun hgoing => absurd hgoing hnone) id, fun h => h.imp nofun id⟩

/-- **What an announce leaves**: a timer if the scheduler answers, and otherwise what was in the mailbox. -/
theorem chained_announce_iff {outcome : AnnounceOutcome} (scheduled : Bool)
    (hlives : (s.announce settings kind outcome scheduled).alive = true) :
    (s.announce settings kind outcome scheduled).Chained ↔ scheduled = true ∨ s.Waits := by
  cases outcome with
  | answered interval =>
      exact chained_scheduleNextAnnounce_iff scheduled { s with interval := interval.getD kind.noInterval }
  | failed => exact chained_scheduleNextAnnounce_iff scheduled s
  | panicked => cases hlives

/-- A timer that fires leaves its message. -/
theorem Chained.fire (hs : s.Chained) (timer : ℕ) : (s.fire timer).Chained := by
  unfold AnnouncingTracker.fire
  split
  · exact .inr (List.mem_append_right _ (List.mem_singleton_self _))
  · exact hs

theorem Chained.post (hs : s.Chained) (m : TrackerRequested) :
    ({ s with mailbox := s.mailbox ++ [m] } : AnnouncingTracker).Chained :=
  hs.imp id (List.mem_append_left _)

theorem Chained.process (hs : s.Chained) {outcome : AnnounceOutcome} {scheduled : Bool}
    (hi : s.Answered (.process outcome scheduled))
    (hlives : (s.process settings kind outcome scheduled).alive = true) :
    (s.process settings kind outcome scheduled).Chained := by
  unfold AnnouncingTracker.process at hlives ⊢
  split at hlives
  · exact hs
  · rename_i ms hmailbox
    exact (chained_announce_iff scheduled hlives).2 (hi ms hmailbox)
  · rename_i update ms hmailbox
    refine hs.imp id fun hwaits => ?_
    rw [Waits, hmailbox] at hwaits
    exact (List.mem_cons.1 hwaits).resolve_left nofun

/-- The chain goes on while the actor lives. -/
theorem Chained.apply (hs : s.alive = true → s.Chained) {i : AnnouncingInput} (hadmits : s.Admits i)
    (hi : s.Answered i) (hlives : (s.apply settings kind i).alive = true) :
    (s.apply settings kind i).Chained := by
  cases i with
  | start scheduled =>
      change (s.onStart settings kind scheduled).alive = true at hlives
      change (s.onStart settings kind scheduled).Chained
      unfold AnnouncingTracker.onStart at hlives ⊢
      split
      · exact .inl (HeldTimers.going_hold _ _)
      · rename_i hunanswered
        rw [if_neg hunanswered] at hlives
        cases hlives.symm.trans hadmits
  | fire timer =>
      have hsame : (s.fire timer).alive = s.alive := by
        unfold AnnouncingTracker.fire
        split <;> rfl
      exact (hs (hsame.symm.trans hlives)).fire timer
  | post m => exact (hs hlives).post m
  | process outcome scheduled => exact (hs hadmits).process hi hlives
  | stop => cases hlives

theorem chained_of_reach {G : AnnouncingTracker → AnnouncingInput → Prop} (hG : ∀ s i, G s i → s.Answered i)
    (h : (announcingSystem settings kind).Reach G s) : s.alive = true → s.Chained := by
  refine h.invariant (I := fun s => s.alive = true → s.Chained) ?_ ?_
  · rintro t rfl hlives
    cases hlives
  · rintro t i u ht hi ⟨hadmits, rfl⟩ hlives
    exact Chained.apply ht hadmits (hG t i hi) hlives

end AnnouncingTracker

/-- **The chain of announces.**  Whatever the order of messages and timers, whatever comes of the announces
and whenever the scheduler fails: no timer of a tracker is live but the one in `next_announce`; a timer that
`schedule_next_announce` has set has a delay between the bounds, whatever interval the tracker named, and the
first one has the delay of the settings; and in a run in which no announce is handled last while the
scheduler fails, the timer is live or an announce waits. -/
theorem announce_chain {settings : AnnounceSettings} {kind : TrackerKind} {s : AnnouncingTracker}
    {G : AnnouncingTracker → AnnouncingInput → Prop} (h : (announcingSystem settings kind).Reach G s)
    (halive : s.alive = true) :
    (∀ timer set, s.timers.live.get? timer = some set →
      s.nextAnnounce = some timer ∧
      (set.setter = .onStart → set.delay = settings.initialAnnounceDelay) ∧
      (set.setter = .scheduleNextAnnounce →
        settings.minimumAnnounceInterval ≤ set.delay ∧
        set.delay ≤ max settings.minimumAnnounceInterval settings.maximumAnnounceInterval)) ∧
    ((∀ t i, G t i → t.Answered i) →
      (∃ timer set, s.nextAnnounce = some timer ∧ s.timers.live.get? timer = some set) ∨
        TrackerRequested.announce ∈ s.mailbox) := by
  have htimed := AnnouncingTracker.timed_of_reach h
  refine ⟨?_, fun hG => AnnouncingTracker.chained_of_reach hG h halive⟩
  intro timer set hlive
  have hdelay := htimed.delays timer set hlive
  refine ⟨htimed.single timer set hlive, fun hfirst => ?_, fun hnext => ?_⟩
  · rw [AnnouncingTracker.InBounds, hfirst] at hdelay
    exact hdelay
  · rw [AnnouncingTracker.InBounds, hnext, AnnounceSettings.longestInterval, max_comm] at hdelay
    exact hdelay

namespace Sample

/-- The first timer fires, and a user asks for an announce before that of the timer is handled. -/
def twoAnnounces : List AnnouncingInput :=
  [.start true, .fire 0, .post .announce, .post (.update (.left 0))]

/-- The scheduler fails at the first of the two announces, and the tracker at the second. -/
def bothHandled : List AnnouncingInput :=
  twoAnnounces ++ [.process (.answered (some 1800)) false, .process .failed true]

def announcing (inputs : List AnnouncingInput) : AnnouncingTracker :=
  inputs.foldl (AnnouncingTracker.apply {} .udp) (.new .udp)

theorem reach_bothHandled :
    (announcingSystem {} .udp).Reach (fun s i => s.Answered i) (announcing bothHandled) := by
  refine System.Reach.steps (.init rfl)
    ⟨⟨trivial, rfl, rfl⟩, ⟨trivial, trivial, rfl⟩, ⟨trivial, trivial, rfl⟩, ⟨trivial, trivial, rfl⟩,
      ⟨fun ms h => ?_, rfl, rfl⟩, ⟨fun _ _ => .inl rfl, rfl, rfl⟩, trivial⟩
  cases h
  exact .inr (List.mem_cons_self ..)

end Sample

/-- After the two announces the timer is that of the second, with the interval that the first one brought. -/
theorem announce_chain_sample :
    (Sample.announcing Sample.bothHandled).nextAnnounce = some 1 ∧
      (∀ timer set, (Sample.announcing Sample.bothHandled).timers.live.get? timer = some set → timer = 1) ∧
      (Sample.announcing Sample.bothHandled).timers.live.get? 1 = some ⟨.scheduleNextAnnounce, 1800 * 10 ^ 9⟩ ∧
      (Sample.announcing Sample.bothHandled).timers.Going := by
  have hheld : (Sample.announcing Sample.bothHandled).nextAnnounce = some 1 := by decide +kernel
  have hnone : TrackerRequested.announce ∉ (Sample.announcing Sample.bothHandled).mailbox := by
    change TrackerRequested.announce ∉ [TrackerRequested.update (.left 0)]
    exact fun h => nomatch List.mem_singleton.1 h
  obtain ⟨honly, hgoing⟩ := announce_chain Sample.reach_bothHandled rfl
  refine ⟨hheld, fun timer set hlive => ?_, by decide +kernel, (hgoing fun _ _ h => h).resolve_right hnone⟩
  exact Option.some_inj.1 ((honly timer set hlive).1.symm.trans hheld)

/-- With the settings there are by default the first timer has no delay at all; and when the scheduler does
not answer at the end of an announce, nothing is left that would bring another one. -/
theorem announce_chain_ends :
    (∃ s timer set, (announcingSystem {} .udp).Reach (fun _ _ => True) s ∧ s.alive = true ∧
      s.timers.live.get? timer = some set ∧
      set.delay < ({} : AnnounceSettings).minimumAnnounceInterval) ∧
    ∃ s, (announcingSystem {} .udp).Reach (fun _ _ => True) s ∧ s.alive = true ∧
      (∀ timer, s.timers.live.get? timer = none) ∧ TrackerRequested.announce ∉ s.mailbox := by
  have hstart : (announcingSystem {} .udp).Reach (fun _ _ => True) (Sample.announcing [.start true]) :=
    System.Reach.steps (.init rfl) ⟨⟨trivial, rfl, rfl⟩, trivial⟩
  refine ⟨⟨_, 0, ⟨.onStart, 0⟩, hstart, rfl, by decide +kernel, by decide⟩, ?_⟩
  have hend : (announcingSystem {} .udp).Reach (fun _ _ => True)
      (Sample.announcing [.start true, .fire 0, .process (.answered (some 1800)) false]) :=
    System.Reach.steps (.init rfl)
      ⟨⟨trivial, rfl, rfl⟩, ⟨trivial, trivial, rfl⟩, ⟨trivial, rfl, rfl⟩, trivial⟩
  exact ⟨_, hend, rfl, fun _ => rfl, List.not_mem_nil⟩

end Tortillas
