/-
**One torrent's events on the engine's stream.**

`live/hub.rs`: a torrent has a scope in the hub, with a publisher of its own; the engine has a
publisher for all torrents.  An event of a torrent is published on the torrent's publisher and then,
with the torrent's handle, on the engine's.  The two publications are made under the lock of the
scope.  Not everything is: registering a torrent sets the handle before it takes the lock to publish
`Added`, a health report reads the handle before it takes the lock, and a removal reads the handle
before and publishes `Removed` on the engine after.

A call is a task that goes through its sections one by one; any number of calls are under way, and
their sections take place in any order.

Main definitions:

* `HubCall` — the calls, with what each of them holds between two sections;
* `hubSystem` — one scope, its publisher and the engine's, and the calls that are under way.  Its
  state records what the two publishers have accepted;
* `HubScope.Mirrors` — the engine's events of the torrent are those of the torrent from `Added` on,
  but for a `Removed` that is still to be published;
* `HubScope.BreaksMirror` — the sections that break it.

Main results:

* `HubScope.mirrors_step_iff` — a section keeps the streams alike exactly when it is none of these;
* `engine_stream_mirrors` — **the engine's stream mirrors the torrent's** in every run without them;
* `update_before_added` — an update between the two halves of a registration comes before `Added`.
-/

import Tortillas.LivePublisher
import Tortillas.Transition

set_option relaxedAutoImplicit false
set_option autoImplicit false

namespace Tortillas

variable {T S V E : Type}

/-- The events of a torrent; `E` are those that are neither of the two that bound its life. -/
inductive TorrentEvent (E : Type)
  | added
  | removed
  | other (e : E)
  deriving DecidableEq

/-- The events of the engine: those of a torrent with its handle, health reports that name a torrent
without a scope, and all others. -/
inductive EngineEvent (T E : Type)
  | torrent (handle : T) (event : TorrentEvent E)
  | health (e : E)
  | elsewhere

/-- The event of the torrent that an event of the engine carries. -/
def EngineEvent.event? : EngineEvent T E → Option (TorrentEvent E)
  | torrent _ event => some event
  | health _ => none
  | elsewhere => none

/-- A call on the scope, before its next section. -/
inductive HubCall (T V E : Type)
  /-- `register_torrent_scope`: set the handle, look for a view, publish `Added`. -/
  | register (torrent : T)
  | registered (torrent : T)
  | announce (torrent : T)
  /-- `replace_torrent_view_and_emit`. -/
  | replace (view : V) (e : E)
  /-- `emit_health`: read the handle, publish. -/
  | health (e : E)
  | report (torrent : T) (e : E)
  /-- `remove_torrent_scope`: read the handle, close, leave the registry, publish `Removed`. -/
  | remove
  | close (torrent : Option T)
  | retire (torrent : Option T)
  | farewell (torrent : Option T)
  | done

structure HubScope (T S V E : Type) where
  handle : Option T
  /-- The scope is in the registry. -/
  present : Bool
  publisher : LivePublisher (Option V) (TorrentEvent E)
  engine : LivePublisher S (EngineEvent T E)
  calls : List (HubCall T V E)
  torrentLog : List (TorrentEvent E)
  engineLog : List (EngineEvent T E)

/-- What happens: a call is made, a call goes through its next section, the torrent's view is
installed, or something else is published on the engine. -/
inductive HubInput (T V E : Type)
  | register (torrent : T)
  | replace (view : V) (e : E)
  | health (e : E)
  | remove
  | advance (call : ℕ)
  | initializeTorrentProjection (view : V)
  | elsewhere

namespace HubScope

/-- An event of the torrent on the engine's publisher. -/
def emitEngine (s : HubScope T S V E) (event : EngineEvent T E) : HubScope T S V E :=
  { s with
    engine := (s.engine.emitWithoutViewChange event).1
    engineLog := s.engineLog ++
      if (s.engine.emitWithoutViewChange event).2 then [event] else [] }

/-- The torrent's publisher after an operation that publishes an event. -/
def setPublisher (s : HubScope T S V E)
    (result : LivePublisher (Option V) (TorrentEvent E) × Bool) (event : TorrentEvent E) :
    HubScope T S V E :=
  { s with
    publisher := result.1
    torrentLog := s.torrentLog ++ if result.2 then [event] else [] }

def setCall (s : HubScope T S V E) (k : ℕ) (call : HubCall T V E) : HubScope T S V E :=
  { s with calls := s.calls.set k call }

def addCall (s : HubScope T S V E) (call : HubCall T V E) : HubScope T S V E :=
  { s with calls := s.calls ++ [call] }

/-- Publish on the torrent's publisher, and on the engine's when the first accepts. -/
def publishBoth (s : HubScope T S V E)
    (result : LivePublisher (Option V) (TorrentEvent E) × Bool) (handle : Option T)
    (event : TorrentEvent E) : HubScope T S V E :=
  let s' := s.setPublisher result event
  if result.2 then
    match handle with
    | some torrent => s'.emitEngine (.torrent torrent event)
    | none => s'
  else s'

/-- The next section of a call. -/
def callStep (s : HubScope T S V E) (k : ℕ) : HubCall T V E → HubScope T S V E
  | .register torrent =>
      match s.handle with
      | some _ => s.setCall k .done
      | none => { s with handle := some torrent }.setCall k (.registered torrent)
  | .registered torrent =>
      if s.publisher.view.isNone then s.setCall k .done else s.setCall k (.announce torrent)
  | .announce torrent =>
      (s.publishBoth (s.publisher.emitWithoutViewChange .added) (some torrent) .added).setCall k .done
  | .replace view e =>
      (s.publishBoth (s.publisher.replaceViewAndEmit (some view) (.other e)) s.handle
        (.other e)).setCall k .done
  | .health e =>
      match s.handle with
      | some torrent => s.setCall k (.report torrent e)
      | none => s.setCall k .done
  | .report torrent e =>
      (s.publishBoth (s.publisher.emitWithoutViewChange (.other e)) (some torrent)
        (.other e)).setCall k .done
  | .remove => s.setCall k (.close s.handle)
  | .close torrent =>
      let result := s.publisher.closeWithTerminalEvent none .removed
      (s.setPublisher result .removed).setCall k (if result.2 then .retire torrent else .done)
  | .retire torrent => { s with present := false }.setCall k (.farewell torrent)
  | .farewell (some torrent) => (s.emitEngine (.torrent torrent .removed)).setCall k .done
  | .farewell none => s.setCall k .done
  | .done => s

def step (s : HubScope T S V E) : HubInput T V E → HubScope T S V E
  | .register torrent => if s.present then s.addCall (.register torrent) else s
  | .replace view e => if s.present then s.addCall (.replace view e) else s
  | .health e => if s.present then s.addCall (.health e) else s.emitEngine (.health e)
  | .remove => if s.present then s.addCall .remove else s
  | .advance k =>
      match s.calls[k]? with
      | some call => s.callStep k call
      | none => s
  | .initializeTorrentProjection view =>
      { s with publisher := (s.publisher.replaceView (some view)).1 }
  | .elsewhere => { s with engine := (s.engine.emitWithoutViewChange .elsewhere).1 }

end HubScope

/-- A new scope, while the engine's publisher is open. -/
def hubSystem (T S V E : Type) : System (HubScope T S V E) (HubInput T V E) where
  init s := ∃ capacity engine, engine.closed = false ∧
    s = ⟨none, true, .new none capacity, engine, [], [], []⟩
  step s i t := t = s.step i

/-! ### Likeness of the two streams -/

def TorrentEvent.isAdded : TorrentEvent E → Bool
  | added => true
  | _ => false

/-- The events from `Added` on. -/
def fromAdded (log : List (TorrentEvent E)) : List (TorrentEvent E) := log.dropWhile (!·.isAdded)

theorem fromAdded_of_not_mem {log : List (TorrentEvent E)} (h : TorrentEvent.added ∉ log) :
    fromAdded log = [] := by
  induction log with
  | nil => rfl
  | cons first log ih =>
      cases first with
      | added => exact absurd (List.mem_cons_self ..) h
      | removed => exact ih (by simpa using h)
      | other e => exact ih (by simpa using h)

theorem fromAdded_concat_of_mem {log : List (TorrentEvent E)} (h : TorrentEvent.added ∈ log)
    (event : TorrentEvent E) : fromAdded (log ++ [event]) = fromAdded log ++ [event] := by
  induction log with
  | nil => cases h
  | cons first log ih =>
      cases first with
      | added => rfl
      | removed => exact ih (by simpa using h)
      | other e => exact ih (by simpa using h)

/-- Nothing counts before `Added`. -/
theorem fromAdded_concat_of_not_mem {log : List (TorrentEvent E)} (h : TorrentEvent.added ∉ log)
    {event : TorrentEvent E} (hevent : event ≠ .added) : fromAdded (log ++ [event]) = [] := by
  refine fromAdded_of_not_mem ?_
  intro hmem
  rcases List.mem_append.1 hmem with hmem | hmem
  · exact h hmem
  · exact hevent (List.mem_singleton.1 hmem).symm

theorem fromAdded_concat_added {log : List (TorrentEvent E)} (h : TorrentEvent.added ∉ log) :
    fromAdded (log ++ [.added]) = [.added] := by
  induction log with
  | nil => rfl
  | cons first log ih =>
      cases first with
      | added => exact absurd (List.mem_cons_self ..) h
      | removed => exact ih (by simpa using h)
      | other e => exact ih (by simpa using h)

/-- The call has closed the scope and has still to publish `Removed` on the engine. -/
def HubCall.isOwing : HubCall T V E → Bool
  | retire torrent => torrent.isSome
  | farewell torrent => torrent.isSome
  | _ => false

/-- The call has set the handle and has still to publish `Added`. -/
def HubCall.isAnnouncing : HubCall T V E → Bool
  | registered _ => true
  | announce _ => true
  | _ => false

namespace HubScope

variable {s t : HubScope T S V E} {i : HubInput T V E}

/-- How many times `Removed` is still to be published on the engine. -/
def owing (s : HubScope T S V E) : ℕ := s.calls.countP HubCall.isOwing

/-- **The engine's events that name the torrent are those of the torrent from `Added` on**, but for
a `Removed` that is still to be published. -/
def Mirrors (s : HubScope T S V E) : Prop :=
  s.engineLog.map EngineEvent.event? ++ List.replicate s.owing (some .removed) =
    (fromAdded s.torrentLog).map some

/-- The same without the health reports that were made while the torrent had no scope. -/
def MirrorsEvents (s : HubScope T S V E) : Prop :=
  s.engineLog.filterMap EngineEvent.event? ++ List.replicate s.owing .removed =
    fromAdded s.torrentLog

/-- The sections that publish on the engine without `Added` before, and the closing of a scope by a
removal that read no handle before `Added`, or read one and there is no `Added`. -/
def BreaksOrder (s : HubScope T S V E) : HubInput T V E → Prop
  | .advance k =>
      s.publisher.closed = false ∧
      match s.calls[k]? with
      | some (.replace _ _) => s.handle.isSome = true ∧ TorrentEvent.added ∉ s.torrentLog
      | some (.report _ _) => TorrentEvent.added ∉ s.torrentLog
      | some (.close torrent) => ¬ (torrent.isSome = true ↔ TorrentEvent.added ∈ s.torrentLog)
      | _ => False
  | _ => False

/-- The same, and the health reports about a torrent that has no scope. -/
def BreaksMirror (s : HubScope T S V E) (i : HubInput T V E) : Prop :=
  s.BreaksOrder i ∨ ∃ e, i = .health e ∧ s.present = false

theorem breaksMirror_advance (k : ℕ) :
    s.BreaksMirror (.advance k) ↔ s.BreaksOrder (.advance k) := by simp [BreaksMirror]

/-- What a step does to the records. -/
inductive Change (s : HubScope T S V E) (i : HubInput T V E) (t : HubScope T S V E) : Prop
  | quiet (hno : ¬ s.BreaksMirror i) (hclosed : t.publisher.closed = s.publisher.closed)
      (hlog : t.torrentLog = s.torrentLog) (hengine : t.engineLog = s.engineLog)
      (howing : t.owing = s.owing)
  | both (handle : Option T) (event : TorrentEvent E) (hevent : event ≠ .removed)
      (hopen : s.publisher.closed = false)
      (hclosed : t.publisher.closed = false) (hlog : t.torrentLog = s.torrentLog ++ [event])
      (hengine : t.engineLog = s.engineLog ++ (handle.map fun h => .torrent h event).toList)
      (howing : t.owing = s.owing) (hno : ∀ e, i ≠ .health e)
      (hbreaks : s.BreaksOrder i ↔
        handle.isSome = true ∧ event ≠ .added ∧ TorrentEvent.added ∉ s.torrentLog)
      (hnone : handle = none → event ≠ .added ∧ TorrentEvent.added ∉ s.torrentLog)
  | closing (handle : Option T) (hopen : s.publisher.closed = false)
      (hclosed : t.publisher.closed = true) (hlog : t.torrentLog = s.torrentLog ++ [.removed])
      (hengine : t.engineLog = s.engineLog)
      (howing : t.owing = s.owing + if handle.isSome then 1 else 0) (hno : ∀ e, i ≠ .health e)
      (hbreaks : s.BreaksOrder i ↔
        ¬ (handle.isSome = true ↔ TorrentEvent.added ∈ s.torrentLog))
  | farewell (torrent : T) (hno : ¬ s.BreaksMirror i)
      (hclosed : t.publisher.closed = s.publisher.closed) (hlog : t.torrentLog = s.torrentLog)
      (hengine : t.engineLog = s.engineLog ++ [.torrent torrent .removed])
      (howing : t.owing + 1 = s.owing)
  | report (e : E) (hbreaks : s.BreaksMirror i) (hno : ¬ s.BreaksOrder i)
      (hclosed : t.publisher.closed = s.publisher.closed) (hlog : t.torrentLog = s.torrentLog)
      (hengine : t.engineLog = s.engineLog ++ [.health e]) (howing : t.owing = s.owing)

/-- The handle is set before `Added` is published. -/
structure Registered (s : HubScope T S V E) : Prop where
  engine : s.engine.closed = false
  added : TorrentEvent.added ∈ s.torrentLog → s.handle.isSome = true
  announcing : ∀ call ∈ s.calls, call.isAnnouncing = true → s.handle.isSome = true

/-! ### What a section does -/

@[simp] theorem setCall_handle (k : ℕ) (call : HubCall T V E) :
    (s.setCall k call).handle = s.handle := rfl

@[simp] theorem setCall_publisher (k : ℕ) (call : HubCall T V E) :
    (s.setCall k call).publisher = s.publisher := rfl

@[simp] theorem setCall_engine (k : ℕ) (call : HubCall T V E) :
    (s.setCall k call).engine = s.engine := rfl

@[simp] theorem setCall_torrentLog (k : ℕ) (call : HubCall T V E) :
    (s.setCall k call).torrentLog = s.torrentLog := rfl

@[simp] theorem setCall_engineLog (k : ℕ) (call : HubCall T V E) :
    (s.setCall k call).engineLog = s.engineLog := rfl

@[simp] theorem setCall_calls (k : ℕ) (call : HubCall T V E) :
    (s.setCall k call).calls = s.calls.set k call := rfl

@[simp] theorem emitEngine_handle (event : EngineEvent T E) :
    (s.emitEngine event).handle = s.handle := rfl

@[simp] theorem emitEngine_publisher (event : EngineEvent T E) :
    (s.emitEngine event).publisher = s.publisher := rfl

@[simp] theorem emitEngine_torrentLog (event : EngineEvent T E) :
    (s.emitEngine event).torrentLog = s.torrentLog := rfl

@[simp] theorem emitEngine_calls (event : EngineEvent T E) :
    (s.emitEngine event).calls = s.calls := rfl

@[simp] theorem emitEngine_closed (event : EngineEvent T E) :
    (s.emitEngine event).engine.closed = s.engine.closed :=
  LiveSystem.applyAndEmit_closed ..

/-- The engine's publisher is open: it accepts the event. -/
theorem emitEngine_engineLog (h : s.engine.closed = false) (event : EngineEvent T E) :
    (s.emitEngine event).engineLog = s.engineLog ++ [event] := by
  have haccept : (s.engine.emitWithoutViewChange event).2 = true := by
    rw [LivePublisher.emitWithoutViewChange, LiveSystem.applyAndEmit_snd, h]
    rfl
  rw [emitEngine, haccept, if_pos rfl]

@[simp] theorem publishBoth_handle
    (result : LivePublisher (Option V) (TorrentEvent E) × Bool) (handle : Option T)
    (event : TorrentEvent E) : (s.publishBoth result handle event).handle = s.handle := by
  unfold publishBoth
  repeat' split
  all_goals rfl

@[simp] theorem publishBoth_publisher
    (result : LivePublisher (Option V) (TorrentEvent E) × Bool) (handle : Option T)
    (event : TorrentEvent E) : (s.publishBoth result handle event).publisher = result.1 := by
  unfold publishBoth
  repeat' split
  all_goals rfl

@[simp] theorem publishBoth_calls
    (result : LivePublisher (Option V) (TorrentEvent E) × Bool) (handle : Option T)
    (event : TorrentEvent E) : (s.publishBoth result handle event).calls = s.calls := by
  unfold publishBoth
  repeat' split
  all_goals rfl

@[simp] theorem publishBoth_closed
    (result : LivePublisher (Option V) (TorrentEvent E) × Bool) (handle : Option T)
    (event : TorrentEvent E) :
    (s.publishBoth result handle event).engine.closed = s.engine.closed := by
  unfold publishBoth
  repeat' split
  · exact emitEngine_closed _
  · rfl
  · rfl

@[simp] theorem publishBoth_torrentLog
    (result : LivePublisher (Option V) (TorrentEvent E) × Bool) (handle : Option T)
    (event : TorrentEvent E) : (s.publishBoth result handle event).torrentLog =
      s.torrentLog ++ if result.2 then [event] else [] := by
  cases hresult : result.2 <;> cases handle <;> simp [publishBoth, setPublisher, hresult]

theorem publishBoth_engineLog (h : s.engine.closed = false)
    (result : LivePublisher (Option V) (TorrentEvent E) × Bool) (handle : Option T)
    (event : TorrentEvent E) : (s.publishBoth result handle event).engineLog =
      s.engineLog ++ if result.2 then (handle.map fun h => .torrent h event).toList else [] := by
  unfold publishBoth
  cases result.2 with
  | false => simp [setPublisher]
  | true =>
      cases handle with
      | none => simp [setPublisher]
      | some torrent =>
          have hengine : (s.setPublisher result event).engine.closed = false := h
          simp only [if_true, emitEngine_engineLog hengine]
          rfl

/-- **What a call's section that publishes on both streams does**: a closed scope refuses it. -/
theorem change_publishBoth (hs : s.Registered) {k : ℕ} {call : HubCall T V E}
    (hcall : s.calls[k]? = some call) (howing : call.isOwing = false)
    {result : LivePublisher (Option V) (TorrentEvent E) × Bool} (hresult : result.2 = !s.publisher.closed)
    (hclosed : result.1.closed = s.publisher.closed) {handle : Option T} {event : TorrentEvent E}
    (hevent : event ≠ .removed)
    (hbreaks : s.BreaksOrder (.advance k) ↔ s.publisher.closed = false ∧
      handle.isSome = true ∧ event ≠ .added ∧ TorrentEvent.added ∉ s.torrentLog)
    (hnone : handle = none → event ≠ .added ∧ TorrentEvent.added ∉ s.torrentLog) :
    Change s (.advance k) ((s.publishBoth result handle event).setCall k .done) := by
  have howes : ((s.publishBoth result handle event).setCall k .done).owing = s.owing := by
    rw [owing, setCall_calls, publishBoth_calls]
    exact countP_set_of_not hcall howing rfl
  cases hpub : s.publisher.closed with
  | true =>
      rw [hpub] at hresult
      refine .quiet ?_ (by simpa using hclosed) ?_ ?_ howes
      · rw [breaksMirror_advance, hbreaks, hpub]
        rintro ⟨hopen, -⟩
        cases hopen
      · simp [hresult]
      · rw [setCall_engineLog, publishBoth_engineLog hs.engine, hresult]
        simp
  | false =>
      rw [hpub] at hresult
      refine .both handle event hevent hpub (by simpa [hpub] using hclosed) ?_ ?_ howes
        (fun e h => (nomatch h)) ?_ hnone
      · simp [hresult]
      · rw [setCall_engineLog, publishBoth_engineLog hs.engine, hresult]
        simp
      · rw [hbreaks, hpub]
        simp

/-- A section after which only the call has changed. -/
theorem change_setCall (hno : ¬ s.BreaksMirror i) {k : ℕ} {call call' : HubCall T V E}
    (hcall : s.calls[k]? = some call) (howing : call.isOwing = false) (howing' : call'.isOwing = false) :
    Change s i (s.setCall k call') :=
  .quiet hno rfl rfl rfl (countP_set_of_not hcall howing howing')

/-- **The section that closes the scope**: the first removal owes the engine its `Removed`, and a
second one finds the publisher closed. -/
theorem change_close {k : ℕ} {torrent : Option T}
    (hcall : s.calls[k]? = some (.close torrent)) :
    Change s (.advance k) (s.callStep k (.close torrent)) := by
  have hsnd := LiveSystem.closeWithTerminalEvent_snd s.publisher none TorrentEvent.removed
  have hafter := LiveSystem.closeWithTerminalEvent_closed s.publisher none TorrentEvent.removed
  cases hpub : s.publisher.closed with
  | true =>
      rw [hpub] at hsnd
      refine .quiet ?_ ?_ ?_ rfl ?_
      · rw [breaksMirror_advance]
        simp [BreaksOrder, hpub]
      · rw [hpub]
        exact hafter
      · simp [callStep, setPublisher, hsnd]
      · simp only [callStep, hsnd]
        exact countP_set_of_not hcall rfl rfl
  | false =>
      rw [hpub] at hsnd
      refine .closing torrent hpub hafter ?_ rfl ?_ (fun e h => (nomatch h)) ?_
      · simp [callStep, setPublisher, hsnd]
      · have hset := countP_set_add HubCall.isOwing hcall (.retire torrent)
        simp only [callStep, hsnd]
        exact hset
      · simp [BreaksOrder, hcall, hpub]

/-- Each section, call by call. -/
theorem change_callStep (hs : s.Registered) {k : ℕ} {call : HubCall T V E}
    (hcall : s.calls[k]? = some call) : Change s (.advance k) (s.callStep k call) := by
  -- the other half of `BreaksMirror` is about health reports, which are no sections
  have hno (h : ¬ s.BreaksOrder (.advance k)) : ¬ s.BreaksMirror (.advance k) :=
    mt (breaksMirror_advance k).1 h
  cases call with
  | register torrent =>
      have hquiet : ¬ s.BreaksMirror (.advance k) := hno (by simp [BreaksOrder, hcall])
      cases hhandle : s.handle with
      | some torrent' =>
          simp only [callStep, hhandle]
          exact change_setCall hquiet hcall rfl rfl
      | none =>
          simp only [callStep, hhandle]
          exact .quiet hquiet rfl rfl rfl (countP_set_of_not hcall rfl rfl)
  | registered torrent =>
      have hquiet : ¬ s.BreaksMirror (.advance k) := hno (by simp [BreaksOrder, hcall])
      rw [callStep]
      split
      · exact change_setCall hquiet hcall rfl rfl
      · exact change_setCall hquiet hcall rfl rfl
  | announce torrent =>
      refine change_publishBoth hs hcall rfl (LiveSystem.applyAndEmit_snd ..)
        (LiveSystem.applyAndEmit_closed ..) (fun h => (nomatch h)) ?_ (fun h => (nomatch h))
      simp [BreaksOrder, hcall]
  | replace view e =>
      refine change_publishBoth hs hcall rfl (LiveSystem.applyAndEmit_snd ..)
        (LiveSystem.applyAndEmit_closed ..) (fun h => (nomatch h)) ?_ ?_
      · simp [BreaksOrder, hcall]
      · intro hnone
        refine ⟨fun h => (nomatch h), fun hmem => ?_⟩
        have hsome := hs.added hmem
        rw [hnone] at hsome
        cases hsome
  | health e =>
      have hquiet : ¬ s.BreaksMirror (.advance k) := hno (by simp [BreaksOrder, hcall])
      rw [callStep]
      split
      · exact change_setCall hquiet hcall rfl rfl
      · exact change_setCall hquiet hcall rfl rfl
  | report torrent e =>
      refine change_publishBoth hs hcall rfl (LiveSystem.applyAndEmit_snd ..)
        (LiveSystem.applyAndEmit_closed ..) (fun h => (nomatch h)) ?_ (fun h => (nomatch h))
      simp [BreaksOrder, hcall]
  | remove =>
      exact change_setCall (hno (by simp [BreaksOrder, hcall])) hcall rfl rfl
  | close torrent => exact change_close hcall
  | retire torrent =>
      refine .quiet (hno (by simp [BreaksOrder, hcall])) rfl rfl rfl ?_
      have hset := countP_set_add HubCall.isOwing hcall (.farewell torrent)
      have hsame : (HubCall.retire torrent : HubCall T V E).isOwing =
        (HubCall.farewell torrent : HubCall T V E).isOwing := rfl
      rw [hsame] at hset
      exact Nat.add_right_cancel hset
  | farewell torrent =>
      have hquiet : ¬ s.BreaksMirror (.advance k) := hno (by simp [BreaksOrder, hcall])
      cases torrent with
      | some torrent =>
          refine .farewell torrent hquiet rfl rfl (emitEngine_engineLog hs.engine _) ?_
          exact countP_set_add HubCall.isOwing hcall .done
      | none => exact change_setCall hquiet hcall rfl rfl
  | done => exact .quiet (hno (by simp [BreaksOrder, hcall])) rfl rfl rfl rfl

/-- **What a step does to the records.** -/
theorem step_change (hs : s.Registered) (i : HubInput T V E) : Change s i (s.step i) := by
  have hquiet (h : ∀ k, i ≠ .advance k) (h' : ∀ e, i = .health e → s.present = true) :
      ¬ s.BreaksMirror i := by
    rintro (hbreaks | ⟨e, rfl, hpresent⟩)
    · cases i with
      | advance k => exact h k rfl
      | _ => exact hbreaks
    · rw [h' e rfl] at hpresent
      cases hpresent
  have hadd (hno : ¬ s.BreaksMirror i) (call : HubCall T V E) (hcall : call.isOwing = false) :
      Change s i (s.addCall call) := by
    refine .quiet hno rfl rfl rfl ?_
    simp [owing, addCall, hcall]
  cases i with
  | register torrent =>
      have hno := hquiet (fun k h => (nomatch h)) (fun e h => (nomatch h))
      rw [step]
      split
      · exact hadd hno _ rfl
      · exact .quiet hno rfl rfl rfl rfl
  | replace view e =>
      have hno := hquiet (fun k h => (nomatch h)) (fun e h => (nomatch h))
      rw [step]
      split
      · exact hadd hno _ rfl
      · exact .quiet hno rfl rfl rfl rfl
  | health e =>
      rw [step]
      split
      · rename_i hpresent
        exact hadd (hquiet (fun k h => (nomatch h)) (fun _ _ => hpresent)) _ rfl
      · rename_i hpresent
        exact .report e (.inr ⟨e, rfl, by simpa using hpresent⟩) id rfl rfl
          (emitEngine_engineLog hs.engine _) rfl
  | remove =>
      have hno := hquiet (fun k h => (nomatch h)) (fun e h => (nomatch h))
      rw [step]
      split
      · exact hadd hno _ rfl
      · exact .quiet hno rfl rfl rfl rfl
  | advance k =>
      rw [step]
      cases hcall : s.calls[k]? with
      | some call => exact change_callStep hs hcall
      | none => exact .quiet (by simp [BreaksMirror, BreaksOrder, hcall]) rfl rfl rfl rfl
  | initializeTorrentProjection view =>
      exact .quiet (hquiet (fun k h => (nomatch h)) (fun e h => (nomatch h)))
        (LiveSystem.replaceView_closed ..) rfl rfl rfl
  | elsewhere =>
      exact .quiet (hquiet (fun k h => (nomatch h)) (fun e h => (nomatch h))) rfl rfl rfl rfl

/-! ### Every run -/

theorem Registered.setCall (hs : s.Registered) (k : ℕ) {call : HubCall T V E}
    (hcall : call.isAnnouncing = true → s.handle.isSome = true) : (s.setCall k call).Registered where
  engine := hs.engine
  added := hs.added
  announcing call' hmem hannouncing := by
    rcases List.mem_or_eq_of_mem_set hmem with hmem | rfl
    · exact hs.announcing call' hmem hannouncing
    · exact hcall hannouncing

theorem Registered.addCall (hs : s.Registered) {call : HubCall T V E}
    (hcall : call.isAnnouncing = false) : (s.addCall call).Registered where
  engine := hs.engine
  added := hs.added
  announcing call' hmem hannouncing := by
    rcases List.mem_append.1 hmem with hmem | hmem
    · exact hs.announcing call' hmem hannouncing
    · rw [List.mem_singleton.1 hmem, hcall] at hannouncing
      cases hannouncing

theorem Registered.emitEngine (hs : s.Registered) (event : EngineEvent T E) :
    (s.emitEngine event).Registered where
  engine := (emitEngine_closed event).trans hs.engine
  added := hs.added
  announcing := hs.announcing

theorem Registered.setPublisher (hs : s.Registered)
    (result : LivePublisher (Option V) (TorrentEvent E) × Bool) {event : TorrentEvent E}
    (hevent : event = .added → s.handle.isSome = true) :
    (s.setPublisher result event).Registered where
  engine := hs.engine
  added hmem := by
    rcases List.mem_append.1 hmem with hmem | hmem
    · exact hs.added hmem
    · split at hmem
      · exact hevent (List.mem_singleton.1 hmem).symm
      · cases hmem
  announcing := hs.announcing

theorem Registered.publishBoth (hs : s.Registered)
    (result : LivePublisher (Option V) (TorrentEvent E) × Bool) (handle : Option T)
    {event : TorrentEvent E} (hevent : event = .added → s.handle.isSome = true) :
    (s.publishBoth result handle event).Registered := by
  unfold HubScope.publishBoth
  repeat' split
  · exact (hs.setPublisher result hevent).emitEngine _
  · exact hs.setPublisher result hevent
  · exact hs.setPublisher result hevent

theorem Registered.callStep (hs : s.Registered) {k : ℕ} {call : HubCall T V E}
    (hcall : s.calls[k]? = some call) : (s.callStep k call).Registered := by
  -- all sections but two leave a call that announces nothing
  have hset {t : HubScope T S V E} (ht : t.Registered) {call' : HubCall T V E}
      (hcall' : call'.isAnnouncing = false) : (t.setCall k call').Registered :=
    ht.setCall k (by simp [hcall'])
  have hhandle (hannouncing : call.isAnnouncing = true) : s.handle.isSome = true :=
    hs.announcing call (List.mem_of_getElem? hcall) hannouncing
  cases call with
  | register torrent =>
      rw [HubScope.callStep]
      split
      · exact hset hs rfl
      · -- the handle is set in this section, and `Added` is published in a later one
        have hset' : Registered { s with handle := some torrent } :=
          ⟨hs.engine, fun _ => rfl, fun _ _ _ => rfl⟩
        exact hset'.setCall k fun _ => rfl
  | registered torrent =>
      rw [HubScope.callStep]
      split
      · exact hset hs rfl
      · exact hs.setCall k fun _ => hhandle rfl
  | announce torrent => exact hset (hs.publishBoth _ _ fun _ => hhandle rfl) rfl
  | replace view e =>
      refine hset (hs.publishBoth _ _ ?_) rfl
      intro h
      cases h
  | health e =>
      rw [HubScope.callStep]
      split
      · exact hset hs rfl
      · exact hset hs rfl
  | report torrent e =>
      refine hset (hs.publishBoth _ _ ?_) rfl
      intro h
      cases h
  | remove => exact hset hs rfl
  | close torrent =>
      rw [HubScope.callStep]
      refine hset (hs.setPublisher _ ?_) ?_
      · intro h
        cases h
      · split <;> rfl
  | retire torrent =>
      have hset' : Registered { s with present := false } := ⟨hs.engine, hs.added, hs.announcing⟩
      exact hset hset' rfl
  | farewell torrent =>
      cases torrent with
      | some torrent => exact hset (hs.emitEngine _) rfl
      | none => exact hset hs rfl
  | done => exact hs

/-- The handle stays set, and who announces has set it. -/
theorem Registered.step (hs : s.Registered) (i : HubInput T V E) : (s.step i).Registered := by
  cases i with
  | register torrent =>
      rw [HubScope.step]
      split
      · exact hs.addCall rfl
      · exact hs
  | replace view e =>
      rw [HubScope.step]
      split
      · exact hs.addCall rfl
      · exact hs
  | health e =>
      rw [HubScope.step]
      split
      · exact hs.addCall rfl
      · exact hs.emitEngine _
  | remove =>
      rw [HubScope.step]
      split
      · exact hs.addCall rfl
      · exact hs
  | advance k =>
      rw [HubScope.step]
      cases hcall : s.calls[k]? with
      | some call => exact hs.callStep hcall
      | none => exact hs
  | initializeTorrentProjection view => exact ⟨hs.engine, hs.added, hs.announcing⟩
  | elsewhere =>
      exact ⟨(LiveSystem.applyAndEmit_closed ..).trans hs.engine, hs.added, hs.announcing⟩

/-- While the scope is open, `Removed` is not owed. -/
theorem Change.owing_eq_zero (hchange : Change s i t)
    (h : s.publisher.closed = false → s.owing = 0) (hopen : t.publisher.closed = false) :
    t.owing = 0 := by
  cases hchange with
  | quiet _ hclosed _ _ howing => rw [howing, h (hclosed ▸ hopen)]
  | both _ _ _ hopen' _ _ _ howing => rw [howing, h hopen']
  | closing _ _ hclosed =>
      rw [hclosed] at hopen
      cases hopen
  | farewell _ _ hclosed _ _ howing =>
      have hzero := h (hclosed ▸ hopen)
      omega
  | report _ _ _ hclosed _ _ howing => rw [howing, h (hclosed ▸ hopen)]

/-- A step that is none of those that break the order keeps the events of the streams alike. -/
theorem Change.mirrorsEvents (hchange : Change s i t) (hno : ¬ s.BreaksOrder i)
    (howes : s.publisher.closed = false → s.owing = 0) (h : s.MirrorsEvents) :
    t.MirrorsEvents := by
  unfold MirrorsEvents at h ⊢
  cases hchange with
  | quiet _ _ hlog hengine howing => rw [hlog, hengine, howing, h]
  | both handle event _ hopen _ hlog hengine howing _ hbreaks hnone =>
      rw [howes hopen, List.replicate_zero, List.append_nil] at h
      rw [howing, howes hopen, List.replicate_zero, List.append_nil, hlog, hengine,
        List.filterMap_append, h]
      cases handle with
      | none =>
          obtain ⟨hevent, hnot⟩ := hnone rfl
          rw [fromAdded_concat_of_not_mem hnot hevent, fromAdded_of_not_mem hnot]
          rfl
      | some torrent =>
          by_cases hmem : TorrentEvent.added ∈ s.torrentLog
          · rw [fromAdded_concat_of_mem hmem]
            rfl
          · -- only `Added` itself may come here
            obtain rfl : event = .added := by
              by_contra hevent
              exact hno (hbreaks.2 ⟨rfl, hevent, hmem⟩)
            rw [fromAdded_concat_added hmem, fromAdded_of_not_mem hmem]
            rfl
  | closing handle hopen _ hlog hengine howing _ hbreaks =>
      rw [howes hopen, List.replicate_zero, List.append_nil] at h
      rw [howing, howes hopen, hlog, hengine, h]
      have hiff : handle.isSome = true ↔ TorrentEvent.added ∈ s.torrentLog := by
        by_contra hnot
        exact hno (hbreaks.2 hnot)
      by_cases hmem : TorrentEvent.added ∈ s.torrentLog
      · rw [fromAdded_concat_of_mem hmem, if_pos (hiff.2 hmem)]
        rfl
      · have hnil : fromAdded (s.torrentLog ++ [.removed]) = [] :=
          fromAdded_concat_of_not_mem hmem fun h => (nomatch h)
        rw [hnil, fromAdded_of_not_mem hmem, if_neg (mt hiff.1 hmem)]
        rfl
  | farewell torrent _ _ hlog hengine howing =>
      rw [hlog, hengine, ← h, List.filterMap_append, ← howing, List.append_assoc]
      rfl
  | report e _ _ _ hlog hengine howing =>
      rw [hlog, hengine, howing, ← h, List.filterMap_append]
      simp [EngineEvent.event?]

/-- Without health reports beside the scope there is no difference. -/
theorem mirrors_iff : s.Mirrors ↔
    s.MirrorsEvents ∧ ∀ event ∈ s.engineLog, event.event?.isSome = true := by
  constructor
  · intro h
    refine ⟨?_, ?_⟩
    · have hid := congrArg (List.filterMap id) h
      simpa [Mirrors, MirrorsEvents, List.filterMap_append, List.filterMap_map] using hid
    · intro event hmem
      have hmem' : event.event? ∈ (fromAdded s.torrentLog).map some := by
        rw [← h]
        exact List.mem_append_left _ (List.mem_map_of_mem hmem)
      obtain ⟨e, -, he⟩ := List.mem_map.1 hmem'
      rw [← he]
      rfl
  · rintro ⟨h, hall⟩
    have hmap : s.engineLog.map EngineEvent.event? =
        (s.engineLog.filterMap EngineEvent.event?).map some := by
      rw [List.map_filterMap_some_eq_filter_map_isSome, List.filter_eq_self.2]
      intro event hmem
      obtain ⟨e, he, rfl⟩ := List.mem_map.1 hmem
      exact hall e he
    unfold Mirrors
    rw [hmap, ← h, List.map_append, List.map_replicate]

theorem Mirrors.length (h : s.Mirrors) :
    s.engineLog.length + s.owing = (fromAdded s.torrentLog).length := by
  have hlength := congrArg List.length h
  simpa using hlength

theorem Change.mirrors (hchange : Change s i t) (hno : ¬ s.BreaksMirror i)
    (howes : s.publisher.closed = false → s.owing = 0) (h : s.Mirrors) : t.Mirrors := by
  obtain ⟨hevents, hall⟩ := mirrors_iff.1 h
  refine mirrors_iff.2 ⟨hchange.mirrorsEvents (fun h => hno (.inl h)) howes hevents, ?_⟩
  cases hchange with
  | quiet _ _ _ hengine => rwa [hengine]
  | both handle event _ _ _ _ hengine =>
      rw [hengine]
      intro e hmem
      rcases List.mem_append.1 hmem with hmem | hmem
      · exact hall e hmem
      · cases handle with
        | none => cases hmem
        | some torrent =>
            rw [List.mem_singleton.1 hmem]
            rfl
  | closing _ _ _ _ hengine => rwa [hengine]
  | farewell torrent _ _ _ hengine =>
      rw [hengine]
      intro e hmem
      rcases List.mem_append.1 hmem with hmem | hmem
      · exact hall e hmem
      · rw [List.mem_singleton.1 hmem]
        rfl
  | report _ hbreaks => exact absurd hbreaks hno

/-- Each of the steps that break the likeness breaks it: one stream gets longer than the other. -/
theorem Change.not_mirrors (hchange : Change s i t) (hbreaks : s.BreaksMirror i) (h : s.Mirrors) :
    ¬ t.Mirrors := by
  intro ht
  have hs := h.length
  have hlength := ht.length
  have horder (hno : ∀ e, i ≠ .health e) : s.BreaksOrder i := by
    rcases hbreaks with hbreaks | ⟨e, he, -⟩
    · exact hbreaks
    · exact absurd he (hno e)
  cases hchange with
  | quiet hno => exact hno hbreaks
  | both handle event _ _ _ hlog hengine howing hno hiff _ =>
      obtain ⟨hsome, hevent, hnot⟩ := hiff.1 (horder hno)
      obtain ⟨torrent, rfl⟩ := Option.isSome_iff_exists.1 hsome
      rw [hlog, fromAdded_concat_of_not_mem hnot hevent, hengine] at hlength
      simp at hlength
  | closing handle _ _ hlog hengine howing hno hiff =>
      -- `Removed` is put on the torrent's stream, and is owed only with a handle
      have hdiffer := hiff.1 (horder hno)
      by_cases hmem : TorrentEvent.added ∈ s.torrentLog
      · have hnone : ¬ handle.isSome = true := fun hsome => hdiffer ⟨fun _ => hmem, fun _ => hsome⟩
        rw [hlog, fromAdded_concat_of_mem hmem, hengine, howing, if_neg hnone,
          List.length_append, List.length_singleton] at hlength
        omega
      · have hsome : handle.isSome = true := by
          by_contra hnone
          exact hdiffer ⟨fun hsome => absurd hsome hnone, fun h => absurd h hmem⟩
        have hnil : fromAdded (s.torrentLog ++ [.removed]) = [] :=
          fromAdded_concat_of_not_mem hmem fun h => (nomatch h)
        rw [hlog, hnil, howing, if_pos hsome] at hlength
        simp at hlength
  | farewell torrent hno => exact hno hbreaks
  | report e _ _ _ hlog hengine howing =>
      rw [hlog, hengine, howing, List.length_append, List.length_singleton] at hlength
      omega

/-- The torrent's stream ends with `Removed` when the scope is closed. -/
def EndsWithRemoved (s : HubScope T S V E) : Prop :=
  (s.publisher.closed = false ∧ TorrentEvent.removed ∉ s.torrentLog) ∨
  (s.publisher.closed = true ∧
    ∃ log, s.torrentLog = log ++ [.removed] ∧ TorrentEvent.removed ∉ log)

theorem Change.endsWithRemoved (hchange : Change s i t) (h : s.EndsWithRemoved) :
    t.EndsWithRemoved := by
  cases hchange with
  | quiet _ hclosed hlog => rwa [EndsWithRemoved, hclosed, hlog]
  | farewell _ _ hclosed hlog => rwa [EndsWithRemoved, hclosed, hlog]
  | report _ _ _ hclosed hlog => rwa [EndsWithRemoved, hclosed, hlog]
  | both _ event hevent hopen hclosed hlog =>
      rcases h with ⟨-, hnot⟩ | ⟨hshut, -⟩
      · refine .inl ⟨hclosed, ?_⟩
        rw [hlog]
        intro hmem
        rcases List.mem_append.1 hmem with hmem | hmem
        · exact hnot hmem
        · exact hevent (List.mem_singleton.1 hmem).symm
      · rw [hopen] at hshut
        cases hshut
  | closing _ hopen hclosed hlog =>
      rcases h with ⟨-, hnot⟩ | ⟨hshut, -⟩
      · exact .inr ⟨hclosed, s.torrentLog, hlog, hnot⟩
      · rw [hopen] at hshut
        cases hshut

/-- What holds of the scope in every run, and the likeness `P` of its streams. -/
structure Sound (P : HubScope T S V E → Prop) (s : HubScope T S V E) : Prop where
  registered : s.Registered
  owes : s.publisher.closed = false → s.owing = 0
  ends : s.EndsWithRemoved
  alike : P s

theorem sound_init {P : HubScope T S V E → Prop}
    (hP : ∀ s, s.torrentLog = [] → s.engineLog = [] → s.calls = [] → P s)
    (h : (hubSystem T S V E).init s) : s.Sound P := by
  obtain ⟨capacity, engine, hopen, rfl⟩ := h
  exact ⟨⟨hopen, fun h => (nomatch h), fun call h => (nomatch h)⟩, fun _ => rfl,
    .inl ⟨rfl, fun h => (nomatch h)⟩, hP _ rfl rfl rfl⟩

theorem Sound.step {P : HubScope T S V E → Prop} (hs : s.Sound P) (i : HubInput T V E)
    (hP : P (s.step i)) : (s.step i).Sound P where
  registered := hs.registered.step i
  owes := (step_change hs.registered i).owing_eq_zero hs.owes
  ends := (step_change hs.registered i).endsWithRemoved hs.ends
  alike := hP

/-- **A step keeps the streams alike exactly when it is none of those that break the likeness.** -/
theorem Sound.mirrors_step_iff (hs : s.Sound Mirrors) (i : HubInput T V E) :
    (s.step i).Mirrors ↔ ¬ s.BreaksMirror i := by
  have hchange := step_change hs.registered i
  refine ⟨?_, fun hno => hchange.mirrors hno hs.owes hs.alike⟩
  intro ht hbreaks
  exact hchange.not_mirrors hbreaks hs.alike ht

end HubScope

/-- **The engine's stream mirrors the torrent's** in every run whose steps are none of those that
break the likeness, and a step from such a run keeps it exactly when it is none of them.  The events
of the torrent are mirrored also in the runs with health reports beside the scope. -/
theorem engine_stream_mirrors (T S V E : Type) :
    (∀ s, (hubSystem T S V E).Reach (fun s i => ¬ s.BreaksMirror i) s →
      s.Mirrors ∧ s.EndsWithRemoved ∧ ∀ i, (s.step i).Mirrors ↔ ¬ s.BreaksMirror i) ∧
    (∀ s, (hubSystem T S V E).Reach (fun s i => ¬ s.BreaksOrder i) s →
      s.MirrorsEvents ∧ s.EndsWithRemoved) := by
  refine ⟨?_, ?_⟩
  · intro s h
    have hs : s.Sound HubScope.Mirrors := by
      refine h.invariant ?_ ?_
      · intro s hinit
        refine HubScope.sound_init ?_ hinit
        intro s hlog hengine hcalls
        simp [HubScope.Mirrors, HubScope.owing, hlog, hengine, hcalls, fromAdded]
      · rintro s i t hs hno rfl
        exact hs.step i ((hs.mirrors_step_iff i).2 hno)
    exact ⟨hs.alike, hs.ends, hs.mirrors_step_iff⟩
  · intro s h
    have hs : s.Sound HubScope.MirrorsEvents := by
      refine h.invariant ?_ ?_
      · intro s hinit
        refine HubScope.sound_init ?_ hinit
        intro s hlog hengine hcalls
        simp [HubScope.MirrorsEvents, HubScope.owing, hlog, hengine, hcalls, fromAdded]
      · rintro s i t hs hno rfl
        exact hs.step i
          ((HubScope.step_change hs.registered i).mirrorsEvents hno hs.owes hs.alike)
    exact ⟨hs.alike, hs.ends⟩

namespace Sample

/-- A new scope of a torrent, with handles, views and events that are numbers. -/
def hubScope : HubScope ℕ Unit ℕ ℕ := ⟨none, true, .new none 8, .new () 8, [], [], []⟩

theorem init_hubScope : (hubSystem ℕ Unit ℕ ℕ).init hubScope := ⟨8, .new () 8, rfl, rfl⟩

/-- The view is installed and the torrent registered, with an update between the two halves of the
registration. -/
def hasty : List (HubInput ℕ ℕ ℕ) :=
  [.initializeTorrentProjection 0, .register 1, .replace 1 7, .advance 0, .advance 1, .advance 0,
    .advance 0]

/-- The view is installed and the torrent registered; then an update, a health report and the removal. -/
def calm : List (HubInput ℕ ℕ ℕ) :=
  [.initializeTorrentProjection 0, .register 1, .advance 0, .advance 0, .advance 0, .replace 1 7, .advance 1,
    .health 3, .advance 2, .advance 2, .remove, .advance 3, .advance 3, .advance 3, .advance 3]

end Sample

theorem engine_stream_mirrors_sample :
    (Sample.calm.foldl HubScope.step Sample.hubScope).engineLog =
      [.torrent 1 .added, .torrent 1 (.other 7), .torrent 1 (.other 3), .torrent 1 .removed] ∧
    (Sample.calm.foldl HubScope.step Sample.hubScope).Mirrors := by
  have hno {s : HubScope ℕ Unit ℕ ℕ} {k : ℕ} (h : ¬ s.BreaksOrder (.advance k)) :
      ¬ s.BreaksMirror (.advance k) := mt (HubScope.breaksMirror_advance k).1 h
  have hquiet (s : HubScope ℕ Unit ℕ ℕ) (i : HubInput ℕ ℕ ℕ) (h : ∀ k, i ≠ .advance k)
      (h' : ∀ e, i ≠ .health e) : ¬ s.BreaksMirror i := by
    cases i <;> simp_all [HubScope.BreaksMirror, HubScope.BreaksOrder]
  have hhealth (s : HubScope ℕ Unit ℕ ℕ) (e : ℕ) (hs : s.present = true) : ¬ s.BreaksMirror (.health e) := by
    simp [HubScope.BreaksMirror, HubScope.BreaksOrder, hs]
  have hrun : System.Along (fun s i => ¬ s.BreaksMirror i) HubScope.step Sample.hubScope
      Sample.calm := by
    refine ⟨hquiet _ _ ?_ ?_, hquiet _ _ ?_ ?_, hno fun h => h.2, hno fun h => h.2, hno fun h => h.2,
      hquiet _ _ ?_ ?_, hno fun h => h.2.2 (List.mem_cons_self ..), hhealth _ _ rfl, hno fun h => h.2,
      hno fun h => h.2 (List.mem_cons_self ..), hquiet _ _ ?_ ?_, hno fun h => h.2, hno fun h => h.2 ?closes,
      hno fun h => h.2, hno fun h => h.2, trivial⟩
    case closes => exact ⟨fun _ => List.mem_cons_self .., fun _ => rfl⟩
    all_goals exact fun _ h => (nomatch h)
  exact ⟨rfl, ((engine_stream_mirrors ℕ Unit ℕ ℕ).1 _
    (System.Reach.along (fun _ _ => rfl) (.init Sample.init_hubScope) hrun)).1⟩

/-- An update between the two halves of a registration comes before `Added` on the engine. -/
theorem update_before_added :
    ∃ s, (hubSystem ℕ Unit ℕ ℕ).Reach (fun _ _ => True) s ∧
      s.engineLog = [.torrent 1 (.other 7), .torrent 1 .added] ∧ ¬ s.MirrorsEvents :=
  ⟨Sample.hasty.foldl HubScope.step Sample.hubScope,
    .foldl (fun _ _ => rfl) Sample.hasty (.init Sample.init_hubScope), rfl, fun h => by cases h⟩

end Tortillas
