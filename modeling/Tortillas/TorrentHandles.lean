/-
**Handles, scopes and the engine's map, for one info hash.**

`engine/mod.rs`, `engine/messages.rs` and `live/hub.rs`: the engine actor keeps the torrent actors in
a map and serves one request after another.  A torrent that is created is put into the map and then
registered with the hub: the scope of its hash is looked up, or made, and its handle set, which is
possible only once.  The caller then asks the hub for the handle.  A removal takes the torrent out of
the map, waits until it has stopped, and then removes the scope: it looks the scope up by the hash,
closes it, and takes whatever is there out of the registry.  A creation that fails does the same.

Only the engine's requests are served one after another.  The rest of a call, and each of the
sections of a removal, takes place at any time.

Main definitions:

* `HubState` — the map, the registry and the scopes of one hash, the request that the engine is at,
  and the calls;
* `HubState.Names` — every handle that was returned was that of the torrent in the map, and while
  that torrent is there the hub has an open scope with its handle;
* `HubState.Overlaps` — the sections that let a removal and a creation overlap.

Main results:

* `HubState.Live.step` — what a step without overlap keeps;
* `handles_name_the_live_torrent` — **handles name the live torrent** in every run without overlap;
* `stale_handle_returned` — a torrent that is added again inside a removal gets the old handle.
-/

import Tortillas.Transition
import Mathlib.Tactic.Common

set_option relaxedAutoImplicit false
set_option autoImplicit false

namespace Tortillas

/-- A scope: the handle, which is set once, and whether its publisher is closed. -/
structure ScopeState where
  handle : Option ℕ
  closed : Bool
  deriving DecidableEq

/-- The sections of `remove_torrent_scope`. -/
inductive RemovalPhase
  | lookup
  | close (scope : ℕ)
  | unregister
  | done
  deriving DecidableEq

/-- What the engine is at: `create_torrent` before the torrent is in the map, before its scope is
looked up, before the handle is set, and the removal of what failed. -/
inductive EngineTask
  | idle
  | spawned (caller actor : ℕ) (restoring : Bool)
  | inserted (caller actor : ℕ)
  | registering (caller actor scope : ℕ)
  | discarding (caller : ℕ) (phase : RemovalPhase)
  deriving DecidableEq

/-- A call before its next section: `add_torrent` and `restore_torrent` until the engine serves them,
while it does, and then `torrent_handle`; `remove_torrent` until the engine serves it, while the
actor stops, and then `remove_torrent_scope`. -/
inductive EngineCall
  | create (restoring : Bool)
  | serving
  | lookup
  | read (scope : ℕ)
  | remove
  | wait (actor : ℕ)
  | retire (phase : RemovalPhase)
  | done
  deriving DecidableEq

structure HubState where
  /-- The torrent actor in the engine's map. -/
  torrent : Option ℕ
  /-- The number of actors that were spawned. -/
  spawned : ℕ
  /-- The scope in the registry. -/
  registry : Option ℕ
  scopes : List ScopeState
  task : EngineTask
  calls : List EngineCall
  /-- The handles that were returned, with what was in the map then. -/
  returned : List (ℕ × Option ℕ)

/-- What happens: a call is made; the engine serves one; the engine goes on, with an outcome of the
question it has asked the torrent; a call goes on; an actor asks the hub for the scope. -/
inductive HandleInput
  | add
  | restore
  | remove
  | serve (call : ℕ)
  | work (ok : Bool)
  | advance (call : ℕ)
  | ensureTorrentScope

namespace HubState

/-- A new scope in the registry. -/
def addScope (s : HubState) : HubState :=
  { s with registry := some s.scopes.length, scopes := s.scopes ++ [⟨none, false⟩] }

def ensureTorrentScope (s : HubState) : HubState :=
  match s.registry with
  | some _ => s
  | none => s.addScope

def setCall (s : HubState) (k : ℕ) (call : EngineCall) : HubState :=
  { s with calls := s.calls.set k call }

/-- The next section of `remove_torrent_scope`. -/
def removeTorrentScope (s : HubState) : RemovalPhase → HubState × RemovalPhase
  | .lookup =>
      match s.registry with
      | none => (s, .done)
      | some scope => (s, .close scope)
  | .close scope =>
      match s.scopes[scope]? with
      | some ⟨handle, false⟩ => ({ s with scopes := s.scopes.set scope ⟨handle, true⟩ }, .unregister)
      | _ => (s, .done)
  | .unregister => ({ s with registry := none }, .done)
  | .done => (s, .done)

/-- The engine takes up the next request. -/
def serve (s : HubState) (k : ℕ) : HubState :=
  match s.task, s.calls[k]? with
  | .idle, some (.create restoring) =>
      match s.torrent with
      | some _ => s.setCall k .done
      | none =>
          { s with task := .spawned k s.spawned restoring, spawned := s.spawned + 1 }.setCall k
            .serving
  | .idle, some .remove =>
      match s.torrent with
      | some actor => { s with torrent := none }.setCall k (.wait actor)
      | none => s.setCall k .done
  | _, _ => s

/-- The engine goes on with its request. -/
def work (s : HubState) (ok : Bool) : HubState :=
  match s.task with
  | .idle => s
  | .spawned caller actor restoring =>
      -- only a restored torrent is asked something before it is in the map
      if restoring && !ok then { s with torrent := none, task := .discarding caller .lookup }
      else { s with torrent := some actor, task := .inserted caller actor }
  | .inserted caller actor =>
      if ok then
        let s' := s.ensureTorrentScope
        { s' with task := .registering caller actor (s'.registry.getD 0) }
      else { s with torrent := none, task := .discarding caller .lookup }
  | .registering caller actor scope =>
      -- a handle that is set stays as it is
      { s with
        scopes := s.scopes.modify scope fun sc => { sc with handle := sc.handle.or (some actor) }
        task := .idle }.setCall caller .lookup
  | .discarding caller phase =>
      match s.removeTorrentScope phase with
      | (s', .done) => { s' with task := .idle }.setCall caller .done
      | (s', phase') => { s' with task := .discarding caller phase' }

/-- A call goes on. -/
def advance (s : HubState) (k : ℕ) : HubState :=
  match s.calls[k]? with
  | some .lookup =>
      match s.registry with
      | some scope => s.setCall k (.read scope)
      | none => s.setCall k .done
  | some (.read scope) =>
      match (s.scopes[scope]?).bind ScopeState.handle with
      | some actor => { s with returned := s.returned ++ [(actor, s.torrent)] }.setCall k .done
      | none => s.setCall k .done
  | some (.wait _) => s.setCall k (.retire .lookup)
  | some (.retire phase) =>
      match s.removeTorrentScope phase with
      | (s', .done) => s'.setCall k .done
      | (s', phase') => s'.setCall k (.retire phase')
  | _ => s

def step (s : HubState) : HandleInput → HubState
  | .add => { s with calls := s.calls ++ [.create false] }
  | .restore => { s with calls := s.calls ++ [.create true] }
  | .remove => { s with calls := s.calls ++ [.remove] }
  | .serve k => s.serve k
  | .work ok => s.work ok
  | .advance k => s.advance k
  | .ensureTorrentScope => s.ensureTorrentScope

/-- An engine without the torrent. -/
def empty : HubState := ⟨none, 0, none, [], .idle, [], []⟩

end HubState

def handleSystem : System HubState HandleInput where
  init s := s = .empty
  step s i t := t = s.step i

namespace HubState

variable {s : HubState}

/-- The scope that the hub has for the hash. -/
def scope? (s : HubState) : Option ScopeState := s.registry.bind (s.scopes[·]?)

/-- **Every handle that was returned was that of the torrent in the map**, and while that torrent is
in the map the hub has an open scope with its handle. -/
def Names (s : HubState) : Prop :=
  ∀ r ∈ s.returned, r.2 = some r.1 ∧ (s.torrent = some r.1 → s.scope? = some ⟨some r.1, false⟩)

/-- The sections that let a removal and a creation overlap: a torrent is put into the map while the
hub still has the scope of an earlier one; a removal closes a scope while there is a torrent in the
map; a handle is read from a scope that has left the hub, or when there is no torrent in the map. -/
def Overlaps (s : HubState) : HandleInput → Prop
  | .work ok =>
      match s.task with
      | .spawned _ _ restoring =>
          (restoring && !ok) = false ∧ s.scope? ≠ none ∧ s.scope? ≠ some ⟨none, false⟩
      | _ => False
  | .advance k =>
      match s.calls[k]? with
      | some (.retire (.close scope)) =>
          s.torrent ≠ none ∧ ∃ handle, s.scopes[scope]? = some ⟨handle, false⟩
      | some (.read scope) =>
          (s.scopes[scope]?).bind ScopeState.handle ≠ none ∧
            ¬ (s.registry = some scope ∧ s.torrent ≠ none)
      | _ => False
  | _ => False

end HubState

/-! ### What a run keeps -/

/-- The next section of the call takes a closed scope out of the registry. -/
def EngineCall.unregisters : EngineCall → Bool
  | retire .unregister => true
  | _ => false

/-- The same for what the engine is at. -/
def EngineTask.unregisters : EngineTask → Bool
  | discarding _ .unregister => true
  | _ => false

namespace HubState

variable {s : HubState}

/-- How many sections are to take a closed scope out of the registry. -/
def pending (s : HubState) : ℕ :=
  s.calls.countP EngineCall.unregisters + if s.task.unregisters then 1 else 0

/-- Whether the scope in the registry is closed, as a number. -/
def closedCount (s : HubState) : ℕ := if s.scope?.any ScopeState.closed then 1 else 0

/-- The actor was spawned and is not registered anywhere. -/
def Unknown (s : HubState) (actor : ℕ) : Prop :=
  actor < s.spawned ∧ ∀ state ∈ s.scopes, state.handle ≠ some actor

/-- The scopes: those that are not in the registry are closed, and only actors that were spawned are
registered. -/
structure Scopes (s : HubState) : Prop where
  present : ∀ scope, s.registry = some scope → scope < s.scopes.length
  retired : ∀ scope state, s.scopes[scope]? = some state → s.registry ≠ some scope →
    state.closed = true
  known : ∀ state ∈ s.scopes, ∀ actor, state.handle = some actor → actor < s.spawned

/-- The torrent in the map and the scope in the registry, by what the engine is at. -/
def Fits (s : HubState) : EngineTask → Prop
  | .idle => ∀ actor, s.torrent = some actor → s.scope? = some ⟨some actor, false⟩
  | .spawned caller actor _ =>
      s.calls[caller]? = some .serving ∧ s.torrent = none ∧ s.Unknown actor
  | .inserted caller actor =>
      s.calls[caller]? = some .serving ∧ s.torrent = some actor ∧ s.Unknown actor ∧
        (s.scope? = none ∨ s.scope? = some ⟨none, false⟩)
  | .registering caller actor scope =>
      s.calls[caller]? = some .serving ∧ s.torrent = some actor ∧ s.Unknown actor ∧
        s.registry = some scope ∧ s.scope? = some ⟨none, false⟩
  | .discarding caller _ => s.calls[caller]? = some .serving ∧ s.torrent = none

/-- What a run without overlap keeps. -/
structure Live (s : HubState) : Prop where
  scopes : s.Scopes
  fits : s.Fits s.task
  pending : s.pending = s.closedCount
  returned : ∀ r ∈ s.returned, r.2 = some r.1 ∧ ∃ state ∈ s.scopes, state.handle = some r.1

theorem Live.names (hs : s.Live) : s.Names := by
  intro r hr
  obtain ⟨hmap, state, hstate, hhandle⟩ := hs.returned r hr
  refine ⟨hmap, fun htorrent => ?_⟩
  have hfits := hs.fits
  cases htask : s.task with
  | idle =>
      rw [htask] at hfits
      exact hfits r.1 htorrent
  | spawned caller actor restoring =>
      rw [htask] at hfits
      rw [hfits.2.1] at htorrent
      cases htorrent
  | inserted caller actor =>
      rw [htask] at hfits
      rw [hfits.2.1, Option.some.injEq] at htorrent
      exact absurd (htorrent ▸ hhandle) (hfits.2.2.1.2 state hstate)
  | registering caller actor scope =>
      rw [htask] at hfits
      rw [hfits.2.1, Option.some.injEq] at htorrent
      exact absurd (htorrent ▸ hhandle) (hfits.2.2.1.2 state hstate)
  | discarding caller phase =>
      rw [htask] at hfits
      rw [hfits.2] at htorrent
      cases htorrent

theorem live_empty : empty.Live where
  scopes := ⟨fun _ h => (nomatch h), fun _ _ h => (nomatch h), fun _ h => (nomatch h)⟩
  fits := fun _ h => (nomatch h)
  pending := rfl
  returned := fun _ h => (nomatch h)

/-- While there is a torrent in the map the scope is open. -/
theorem Fits.closedCount_eq_zero {task : EngineTask} (h : s.Fits task) (hsome : s.torrent ≠ none) :
    s.closedCount = 0 := by
  have hopen (handle : Option ℕ) (hscope : s.scope? = some ⟨handle, false⟩) : s.closedCount = 0 := by
    rw [closedCount, hscope]
    rfl
  cases task with
  | idle =>
      obtain ⟨actor, hactor⟩ := Option.ne_none_iff_exists'.1 hsome
      exact hopen _ (h actor hactor)
  | spawned caller actor restoring => exact absurd h.2.1 hsome
  | inserted caller actor =>
      rcases h.2.2.2 with hscope | hscope
      · rw [closedCount, hscope]
        rfl
      · exact hopen _ hscope
  | registering caller actor scope => exact hopen _ h.2.2.2.2
  | discarding caller phase => exact absurd h.2 hsome

/-- What the map and the scope depend on. -/
theorem Fits.congr {t : HubState} {task : EngineTask} (h : s.Fits task)
    (hcalls : ∀ caller : ℕ, s.calls[caller]? = some EngineCall.serving →
      t.calls[caller]? = some EngineCall.serving)
    (htorrent : t.torrent = s.torrent) (hregistry : t.registry = s.registry)
    (hscope : t.scope? = s.scope?) (hunknown : ∀ actor, s.Unknown actor → t.Unknown actor) :
    t.Fits task := by
  cases task with
  | idle =>
      intro actor hactor
      rw [hscope]
      exact h actor (htorrent ▸ hactor)
  | spawned caller actor restoring =>
      exact ⟨hcalls caller h.1, htorrent.trans h.2.1, hunknown actor h.2.2⟩
  | inserted caller actor =>
      exact ⟨hcalls caller h.1, htorrent.trans h.2.1, hunknown actor h.2.2.1, hscope ▸ h.2.2.2⟩
  | registering caller actor scope =>
      exact ⟨hcalls caller h.1, htorrent.trans h.2.1, hunknown actor h.2.2.1,
        hregistry.trans h.2.2.2.1, hscope.trans h.2.2.2.2⟩
  | discarding caller phase => exact ⟨hcalls caller h.1, htorrent.trans h.2⟩

/-- Without a torrent in the map the scope does not matter. -/
theorem Fits.of_none {t : HubState} {task : EngineTask} (h : s.Fits task) (hnone : s.torrent = none)
    (hcalls : ∀ caller : ℕ, s.calls[caller]? = some EngineCall.serving →
      t.calls[caller]? = some EngineCall.serving)
    (htorrent : t.torrent = none) (hunknown : ∀ actor, s.Unknown actor → t.Unknown actor) :
    t.Fits task := by
  cases task with
  | idle =>
      intro actor hactor
      rw [htorrent] at hactor
      cases hactor
  | spawned caller actor restoring => exact ⟨hcalls caller h.1, htorrent, hunknown actor h.2.2⟩
  | inserted caller actor =>
      have hsome := h.2.1
      rw [hnone] at hsome
      cases hsome
  | registering caller actor scope =>
      have hsome := h.2.1
      rw [hnone] at hsome
      cases hsome
  | discarding caller phase => exact ⟨hcalls caller h.1, htorrent⟩

/-- A call other than the one that the engine serves is replaced. -/
theorem serving_set {calls : List EngineCall} {k caller : ℕ} {call : EngineCall}
    (hcall : calls[k]? = some call) (hne : call ≠ .serving) (call' : EngineCall)
    (h : calls[caller]? = some .serving) : (calls.set k call')[caller]? = some .serving := by
  have hk : k ≠ caller := by
    rintro rfl
    rw [hcall, Option.some.injEq] at h
    exact hne h
  rw [List.getElem?_set_ne hk, h]

theorem closedCount_le_one (s : HubState) : s.closedCount ≤ 1 := by
  unfold closedCount
  split <;> omega

/-- What is pending after a call has gone on. -/
theorem pending_setCall (s : HubState) {k : ℕ} {call : EngineCall} (hcall : s.calls[k]? = some call)
    (call' : EngineCall) :
    (s.setCall k call').pending + (if call.unregisters then 1 else 0) =
      s.pending + if call'.unregisters then 1 else 0 := by
  have hset : (s.calls.set k call').countP EngineCall.unregisters + _ = _ :=
    countP_set_add EngineCall.unregisters hcall call'
  unfold pending
  rw [Nat.add_right_comm, HubState.setCall, hset, Nat.add_right_comm]

/-- A call goes on, and nothing else changes. -/
theorem Live.setCall (hs : s.Live) {k : ℕ} {call call' : EngineCall}
    (hcall : s.calls[k]? = some call) (hne : call ≠ .serving) (hp : call.unregisters = false)
    (hp' : call'.unregisters = false) : (s.setCall k call').Live where
  scopes := ⟨hs.scopes.present, hs.scopes.retired, hs.scopes.known⟩
  fits := hs.fits.congr (fun _ h => serving_set hcall hne call' h) rfl rfl rfl fun _ h => h
  pending := by
    have hset := s.pending_setCall hcall call'
    rw [hp, hp'] at hset
    exact (Nat.add_right_cancel hset).trans hs.pending
  returned := hs.returned

/-- A new call. -/
theorem Live.addCall (hs : s.Live) {call : EngineCall} (hp : call.unregisters = false) :
    Live { s with calls := s.calls ++ [call] } where
  scopes := ⟨hs.scopes.present, hs.scopes.retired, hs.scopes.known⟩
  fits := by
    refine hs.fits.congr ?_ rfl rfl rfl fun _ h => h
    intro caller h
    rw [List.getElem?_append_left (List.getElem?_eq_some_iff.1 h).1, h]
  pending := by
    have hcount : (s.calls ++ [call]).countP EngineCall.unregisters =
        s.calls.countP EngineCall.unregisters := by simp [hp]
    have hpending := hs.pending
    unfold HubState.pending at hpending ⊢
    rw [hcount]
    exact hpending
  returned := hs.returned

/-! ### Removing a scope -/

/-- What a section of `remove_torrent_scope` does: it changes nothing, or it closes an open scope, or
it takes the scope out of the registry. -/
theorem removeTorrentScope_cases (s : HubState) (phase : RemovalPhase) :
    (phase ≠ .unregister ∧ ∃ phase', phase' ≠ .unregister ∧
      s.removeTorrentScope phase = (s, phase')) ∨
    (∃ scope handle, phase = .close scope ∧ s.scopes[scope]? = some ⟨handle, false⟩ ∧
      s.removeTorrentScope phase =
        ({ s with scopes := s.scopes.set scope ⟨handle, true⟩ }, .unregister)) ∨
    (phase = .unregister ∧ s.removeTorrentScope phase = ({ s with registry := none }, .done)) := by
  cases phase with
  | lookup =>
      cases hregistry : s.registry with
      | none => exact .inl ⟨fun h => (nomatch h), .done, fun h => (nomatch h),
          by simp [removeTorrentScope, hregistry]⟩
      | some scope => exact .inl ⟨fun h => (nomatch h), .close scope, fun h => (nomatch h),
          by simp [removeTorrentScope, hregistry]⟩
  | close scope =>
      rcases hscope : s.scopes[scope]? with _ | ⟨handle, closed⟩
      · exact .inl ⟨fun h => (nomatch h), .done, fun h => (nomatch h),
          by simp [removeTorrentScope, hscope]⟩
      · cases closed with
        | true => exact .inl ⟨fun h => (nomatch h), .done, fun h => (nomatch h),
            by simp [removeTorrentScope, hscope]⟩
        | false => exact .inr (.inl ⟨scope, handle, rfl, hscope,
            by simp [removeTorrentScope, hscope]⟩)
  | unregister => exact .inr (.inr ⟨rfl, rfl⟩)
  | done => exact .inl ⟨fun h => (nomatch h), .done, fun h => (nomatch h), rfl⟩

/-- An open scope is the one in the registry. -/
theorem Scopes.registry_of_open (hs : s.Scopes) {scope : ℕ} {handle : Option ℕ}
    (hscope : s.scopes[scope]? = some ⟨handle, false⟩) :
    s.registry = some scope ∧ s.scope? = some ⟨handle, false⟩ := by
  have hregistry : s.registry = some scope := by
    by_contra hne
    have hclosed := hs.retired scope _ hscope hne
    cases hclosed
  exact ⟨hregistry, by rw [scope?, hregistry]; exact hscope⟩

/-- The handles of the scopes are those before. -/
theorem exists_handle_set {scopes : List ScopeState} {scope : ℕ} {handle : Option ℕ}
    (hscope : scopes[scope]? = some ⟨handle, false⟩) (actor : ℕ) :
    (∃ state ∈ scopes.set scope ⟨handle, true⟩, state.handle = some actor) ↔
      ∃ state ∈ scopes, state.handle = some actor := by
  have hlt := (List.getElem?_eq_some_iff.1 hscope).1
  constructor
  · rintro ⟨state, hmem, hhandle⟩
    rcases List.mem_or_eq_of_mem_set hmem with hmem | rfl
    · exact ⟨state, hmem, hhandle⟩
    · exact ⟨_, List.mem_of_getElem? hscope, hhandle⟩
  · rintro ⟨state, hmem, hhandle⟩
    obtain ⟨n, hn⟩ := List.mem_iff_getElem?.1 hmem
    by_cases hne : scope = n
    · subst hne
      rw [hscope, Option.some.injEq] at hn
      subst hn
      exact ⟨_, List.mem_set hlt _, hhandle⟩
    · exact ⟨state, List.mem_of_getElem? ((List.getElem?_set_ne hne).trans hn), hhandle⟩

/-- A scope is closed while there is no torrent in the map. -/
theorem Live.close (hs : s.Live) (hnone : s.torrent = none) {scope : ℕ} {handle : Option ℕ}
    (hscope : s.scopes[scope]? = some ⟨handle, false⟩) :
    let t := { s with scopes := s.scopes.set scope ⟨handle, true⟩ }
    t.Scopes ∧ t.Fits s.task ∧ t.closedCount = s.closedCount + 1 ∧
      ∀ r ∈ t.returned, r.2 = some r.1 ∧ ∃ state ∈ t.scopes, state.handle = some r.1 := by
  obtain ⟨hregistry, hopen⟩ := hs.scopes.registry_of_open hscope
  have hlt := (List.getElem?_eq_some_iff.1 hscope).1
  refine ⟨⟨?_, ?_, ?_⟩, ?_, ?_, ?_⟩
  · intro scope' h
    rw [List.length_set]
    exact hs.scopes.present scope' h
  · intro scope' state hstate hne
    have hother : scope ≠ scope' := by
      rintro rfl
      exact hne hregistry
    rw [List.getElem?_set_ne hother] at hstate
    exact hs.scopes.retired scope' state hstate hne
  · intro state hmem actor hhandle
    obtain ⟨state', hmem', hhandle'⟩ := (exists_handle_set hscope actor).1 ⟨state, hmem, hhandle⟩
    exact hs.scopes.known state' hmem' actor hhandle'
  · -- without a torrent in the map nothing relies on an open scope
    refine hs.fits.of_none hnone (fun _ h => h) hnone ?_
    rintro actor ⟨hlt', hnot⟩
    refine ⟨hlt', fun state hmem hhandle => ?_⟩
    obtain ⟨state', hmem', hhandle'⟩ := (exists_handle_set hscope actor).1 ⟨state, hmem, hhandle⟩
    exact hnot state' hmem' hhandle'
  · have hafter : scope? { s with scopes := s.scopes.set scope ⟨handle, true⟩ } =
        some ⟨handle, true⟩ := by
      simp [scope?, hregistry, List.getElem?_set_self hlt]
    rw [closedCount, closedCount, hafter, hopen]
    rfl
  · intro r hr
    obtain ⟨hmap, hhandle⟩ := hs.returned r hr
    exact ⟨hmap, (exists_handle_set hscope r.1).2 hhandle⟩

/-- A closed scope is taken out of the registry. -/
theorem Live.unregister (hs : s.Live) (hclosed : s.closedCount = 1) :
    let t := { s with registry := none }
    t.Scopes ∧ t.Fits s.task ∧ t.closedCount = 0 := by
  have hnone : s.torrent = none := by
    by_contra hsome
    rw [hs.fits.closedCount_eq_zero hsome] at hclosed
    cases hclosed
  refine ⟨⟨fun _ h => (nomatch h), ?_, hs.scopes.known⟩, ?_, rfl⟩
  · intro scope state hstate _
    by_cases hregistry : s.registry = some scope
    · have hscope : s.scope? = some state := by
        rw [scope?, hregistry]
        exact hstate
      rw [closedCount, hscope] at hclosed
      by_contra hopen
      simp [hopen] at hclosed
    · exact hs.scopes.retired scope state hstate hregistry
  · exact hs.fits.of_none hnone (fun _ h => h) hnone fun _ h => h

/-! ### The steps -/

/-- The scope of the hash is there, or is made. -/
theorem Live.ensureTorrentScope (hs : s.Live) : s.ensureTorrentScope.Live := by
  cases hregistry : s.registry with
  | some scope =>
      simp only [HubState.ensureTorrentScope, hregistry]
      exact hs
  | none =>
      simp only [HubState.ensureTorrentScope, hregistry]
      have hbefore : s.scope? = none := by rw [scope?, hregistry]; rfl
      have hafter : s.addScope.scope? = some ⟨none, false⟩ := by
        simp [scope?, addScope]
      have hunknown (actor : ℕ) (h : s.Unknown actor) : s.addScope.Unknown actor := by
        refine ⟨h.1, fun state hmem => ?_⟩
        rcases List.mem_append.1 hmem with hmem | hmem
        · exact h.2 state hmem
        · rw [List.mem_singleton.1 hmem]
          exact fun h => (nomatch h)
      refine ⟨⟨?_, ?_, ?_⟩, ?_, ?_, ?_⟩
      · intro scope h
        cases h
        simp [addScope]
      · intro scope state hstate hne
        have hlt : scope < s.scopes.length := by
          have hlt := (List.getElem?_eq_some_iff.1 hstate).1
          have hne' : s.scopes.length ≠ scope := fun h => hne (congrArg some h)
          simp only [addScope, List.length_append, List.length_singleton] at hlt
          omega
        simp only [addScope, List.getElem?_append_left hlt] at hstate
        exact hs.scopes.retired scope state hstate (by simp [hregistry])
      · intro state hmem actor hhandle
        rcases List.mem_append.1 hmem with hmem | hmem
        · exact hs.scopes.known state hmem actor hhandle
        · rw [List.mem_singleton.1 hmem] at hhandle
          cases hhandle
      · -- a torrent in the map whose registration is over would have a scope
        have hfits := hs.fits
        change s.addScope.Fits s.task
        cases htask : s.task with
        | idle =>
            rw [htask] at hfits
            intro actor hactor
            rw [hfits actor hactor] at hbefore
            cases hbefore
        | spawned caller actor restoring =>
            rw [htask] at hfits
            exact ⟨hfits.1, hfits.2.1, hunknown actor hfits.2.2⟩
        | inserted caller actor =>
            rw [htask] at hfits
            exact ⟨hfits.1, hfits.2.1, hunknown actor hfits.2.2.1, .inr hafter⟩
        | registering caller actor scope =>
            rw [htask] at hfits
            rw [hfits.2.2.2.2] at hbefore
            cases hbefore
        | discarding caller phase =>
            rw [htask] at hfits
            exact hfits
      · have hpending := hs.pending
        rw [closedCount, hbefore] at hpending
        rw [closedCount, hafter]
        exact hpending
      · intro r hr
        obtain ⟨hmap, state, hmem, hhandle⟩ := hs.returned r hr
        exact ⟨hmap, state, List.mem_append_left _ hmem, hhandle⟩

/-- The engine takes up a request. -/
theorem Live.serve (hs : s.Live) (k : ℕ) : (s.serve k).Live := by
  have hfits := hs.fits
  cases htask : s.task with
  | idle =>
      rw [htask] at hfits
      rcases hcall : s.calls[k]? with _ | call
      · simpa [HubState.serve, htask, hcall] using hs
      · cases call with
        | create restoring =>
            cases htorrent : s.torrent with
            | some actor =>
                simp only [HubState.serve, htask, hcall, htorrent]
                exact hs.setCall hcall (fun h => (nomatch h)) rfl rfl
            | none =>
                simp only [HubState.serve, htask, hcall, htorrent]
                -- the actor is new, so that no scope has its handle
                have hset := hs.setCall hcall (fun h => (nomatch h)) rfl
                  (rfl : EngineCall.serving.unregisters = false)
                refine ⟨⟨hset.scopes.present, hset.scopes.retired, ?_⟩, ?_, ?_, hset.returned⟩
                · intro state hmem actor hhandle
                  exact Nat.lt_succ_of_lt (hset.scopes.known state hmem actor hhandle)
                · refine ⟨List.getElem?_set_self (List.getElem?_eq_some_iff.1 hcall).1, rfl,
                    Nat.lt_succ_self _, ?_⟩
                  intro state hmem hhandle
                  exact Nat.lt_irrefl _ (hs.scopes.known state hmem _ hhandle)
                · have hpending := hset.pending
                  rw [HubState.pending, HubState.setCall, htask] at hpending
                  exact hpending
        | remove =>
            cases htorrent : s.torrent with
            | some actor =>
                simp only [HubState.serve, htask, hcall, htorrent]
                have hset := hs.setCall hcall (fun h => (nomatch h)) rfl
                  (rfl : (EngineCall.wait actor).unregisters = false)
                refine ⟨⟨hset.scopes.present, hset.scopes.retired, hset.scopes.known⟩, ?_,
                  ?_, hset.returned⟩
                · exact fun actor' h => (nomatch h)
                · have hpending := hset.pending
                  rw [HubState.pending, HubState.setCall, htask] at hpending
                  exact hpending
            | none =>
                simp only [HubState.serve, htask, hcall, htorrent]
                exact hs.setCall hcall (fun h => (nomatch h)) rfl rfl
        | _ => simpa [HubState.serve, htask, hcall] using hs
  | _ => simpa [HubState.serve, htask] using hs

/-- The engine is at something else, which takes no scope out of the registry next. -/
theorem Live.setTask (hs : s.Live) {torrent : Option ℕ} {task : EngineTask}
    (hold : s.task.unregisters = false) (hnew : task.unregisters = false)
    (hfits : Fits { s with torrent := torrent, task := task } task) :
    Live { s with torrent := torrent, task := task } where
  scopes := ⟨hs.scopes.present, hs.scopes.retired, hs.scopes.known⟩
  fits := hfits
  pending := by
    have hpending := hs.pending
    rw [HubState.pending, hold] at hpending
    rw [HubState.pending, hnew]
    exact hpending
  returned := hs.returned

/-- The scope that a torrent is registered with is open and has no handle. -/
theorem Live.scope_ensured (hs : s.Live) {caller actor : ℕ} (htask : s.task = .inserted caller actor) :
    s.ensureTorrentScope.registry = some (s.ensureTorrentScope.registry.getD 0) ∧
    s.ensureTorrentScope.scope? = some ⟨none, false⟩ := by
  have hfits := hs.fits
  rw [htask] at hfits
  cases hregistry : s.registry with
  | none => simp [HubState.ensureTorrentScope, hregistry, addScope, scope?]
  | some scope =>
      have hlt := hs.scopes.present scope hregistry
      have hscope : s.scope? = some s.scopes[scope] := by
        rw [scope?, hregistry]
        exact List.getElem?_eq_getElem hlt
      simp only [HubState.ensureTorrentScope, hregistry]
      refine ⟨rfl, ?_⟩
      rcases hfits.2.2.2 with hnone | hopen
      · rw [hscope] at hnone
        cases hnone
      · exact hopen

/-- The handle of a scope that is open and has none is set. -/
theorem Live.register (hs : s.Live) {caller actor scope : ℕ}
    (htask : s.task = .registering caller actor scope) :
    Live ({ s with
      scopes := s.scopes.modify scope fun sc => { sc with handle := sc.handle.or (some actor) }
      task := .idle }.setCall caller .lookup) := by
  have hfits := hs.fits
  rw [htask] at hfits
  obtain ⟨hserving, htorrent, hunknown, hregistry, hscope⟩ := hfits
  have hget : s.scopes[scope]? = some ⟨none, false⟩ := by
    rw [scope?, hregistry] at hscope
    exact hscope
  -- the scope that is registered with is the only one that changes
  have hmem {state : ScopeState} (h : state ∈ s.scopes.modify scope fun sc =>
      { sc with handle := sc.handle.or (some actor) }) :
      state ∈ s.scopes ∨ state = ⟨some actor, false⟩ := by
    obtain ⟨n, hn⟩ := List.mem_iff_getElem?.1 h
    by_cases hne : scope = n
    · subst hne
      rw [List.getElem?_modify_eq, hget] at hn
      exact .inr (Option.some.inj hn).symm
    · rw [List.getElem?_modify_ne _ _ hne] at hn
      exact .inl (List.mem_of_getElem? hn)
  refine ⟨⟨?_, ?_, ?_⟩, ?_, ?_, ?_⟩
  · intro scope' h
    have hlt := hs.scopes.present scope' h
    simpa [HubState.setCall] using hlt
  · intro scope' state hstate hne
    have hother : scope ≠ scope' := by
      rintro rfl
      exact hne hregistry
    simp only [HubState.setCall, List.getElem?_modify_ne _ _ hother] at hstate
    exact hs.scopes.retired scope' state hstate hne
  · intro state hstate actor' hhandle
    rcases hmem hstate with hstate | rfl
    · exact hs.scopes.known state hstate actor' hhandle
    · cases hhandle
      exact hunknown.1
  · intro actor' hactor
    obtain rfl : actor = actor' := Option.some.inj (htorrent.symm.trans hactor)
    simp [scope?, HubState.setCall, hregistry, List.getElem?_modify_eq, hget]
  · have hcount : (s.calls.set caller .lookup).countP EngineCall.unregisters =
        s.calls.countP EngineCall.unregisters := countP_set_of_not hserving rfl rfl
    have hpending := hs.pending
    rw [HubState.pending, htask, closedCount, hscope] at hpending
    simp only [HubState.pending, HubState.setCall, hcount, closedCount, scope?, hregistry]
    simpa [List.getElem?_modify_eq, hget, EngineTask.unregisters] using hpending
  · intro r hr
    obtain ⟨hmap, state, hstate, hhandle⟩ := hs.returned r hr
    refine ⟨hmap, state, ?_, hhandle⟩
    obtain ⟨n, hn⟩ := List.mem_iff_getElem?.1 hstate
    -- what was answered before came from a scope that had a handle
    have hne : scope ≠ n := by
      rintro rfl
      rw [hget, Option.some.injEq] at hn
      subst hn
      cases hhandle
    exact List.mem_of_getElem? ((List.getElem?_modify_ne _ _ hne).trans hn)

/-- The engine has removed the scope of what failed. -/
theorem Live.discard (hs : s.Live) {caller : ℕ} {phase : RemovalPhase}
    (htask : s.task = .discarding caller phase) :
    Live (match s.removeTorrentScope phase with
      | (s', .done) => { s' with task := .idle }.setCall caller .done
      | (s', phase') => { s' with task := .discarding caller phase' }) := by
  have hfits := hs.fits
  rw [htask] at hfits
  obtain ⟨hserving, htorrent⟩ := hfits
  have hcount : (s.calls.set caller .done).countP EngineCall.unregisters =
      s.calls.countP EngineCall.unregisters := countP_set_of_not hserving rfl rfl
  have hpending := hs.pending
  rw [HubState.pending, htask] at hpending
  rcases removeTorrentScope_cases s phase with ⟨hphase, phase', hphase', hremove⟩ |
    ⟨scope, handle, rfl, hscope, hremove⟩ | ⟨rfl, hremove⟩
  · -- a section that neither closes a scope nor touches the registry
    have hold : s.task.unregisters = false := by
      rw [htask]
      cases phase <;> simp_all [EngineTask.unregisters]
    rw [hremove]
    cases phase' with
    | done =>
        refine ⟨⟨hs.scopes.present, hs.scopes.retired, hs.scopes.known⟩, ?_, ?_, hs.returned⟩
        · intro actor hactor
          exact absurd (htorrent.symm.trans hactor) fun h => (nomatch h)
        · rw [← htask, hold] at hpending
          simp only [HubState.pending, HubState.setCall, hcount]
          exact hpending
    | lookup => exact hs.setTask hold rfl ⟨hserving, htorrent⟩
    | close scope => exact hs.setTask hold rfl ⟨hserving, htorrent⟩
    | unregister => exact absurd rfl hphase'
  · -- the scope is closed, and is to be taken out of the registry
    obtain ⟨hscopes, -, hclosed, hreturned⟩ := hs.close htorrent hscope
    rw [hremove]
    refine ⟨⟨hscopes.present, hscopes.retired, hscopes.known⟩, ⟨hserving, htorrent⟩, ?_, hreturned⟩
    refine Eq.trans ?_ hclosed.symm
    exact congrArg (· + 1) hpending
  · have hone : s.closedCount = 1 := by
      have hle := s.closedCount_le_one
      simp only [EngineTask.unregisters, if_true] at hpending
      omega
    obtain ⟨hscopes, -, hclosed⟩ := hs.unregister hone
    rw [hremove]
    refine ⟨⟨hscopes.present, hscopes.retired, hscopes.known⟩, ?_, ?_, hs.returned⟩
    · intro actor hactor
      exact absurd (htorrent.symm.trans hactor) fun h => (nomatch h)
    · rw [hone] at hpending
      refine Eq.trans ?_ hclosed.symm
      simp only [HubState.pending, HubState.setCall, hcount]
      exact Nat.succ.inj hpending

/-- The engine goes on with a request. -/
theorem Live.work (hs : s.Live) {ok : Bool} (hno : ¬ s.Overlaps (.work ok)) : (s.work ok).Live := by
  have hfits := hs.fits
  cases htask : s.task with
  | idle => simpa [HubState.work, htask] using hs
  | spawned caller actor restoring =>
      rw [htask] at hfits
      obtain ⟨hserving, htorrent, hunknown⟩ := hfits
      have hold : s.task.unregisters = false := by rw [htask]; rfl
      simp only [HubState.work, htask]
      split
      · exact hs.setTask hold rfl ⟨hserving, rfl⟩
      · rename_i hok
        -- a scope that is left from before is an overlap
        refine hs.setTask hold rfl ⟨hserving, rfl, hunknown, ?_⟩
        by_contra hscope
        rw [not_or] at hscope
        refine hno ?_
        simp only [Overlaps, htask]
        exact ⟨Bool.eq_false_iff.2 hok, hscope.1, hscope.2⟩
  | inserted caller actor =>
      rw [htask] at hfits
      simp only [HubState.work, htask]
      split
      · -- the lock of the registry is given back before the handle is set
        obtain ⟨hregistry, hscope⟩ := hs.scope_ensured htask
        have hensured := hs.ensureTorrentScope
        have htask' : s.ensureTorrentScope.task = .inserted caller actor := by
          rw [← htask, HubState.ensureTorrentScope]
          split <;> rfl
        have hfits' := hensured.fits
        rw [htask'] at hfits'
        exact hensured.setTask (by rw [htask']; rfl) rfl
          ⟨hfits'.1, hfits'.2.1, hfits'.2.2.1, hregistry, hscope⟩
      · exact hs.setTask (by rw [htask]; rfl) rfl ⟨hfits.1, rfl⟩
  | registering caller actor scope =>
      simp only [HubState.work, htask]
      exact hs.register htask
  | discarding caller phase =>
      simp only [HubState.work, htask]
      exact hs.discard htask

/-- A removal goes on. -/
theorem Live.retire (hs : s.Live) {k : ℕ} {phase : RemovalPhase}
    (hcall : s.calls[k]? = some (.retire phase)) (hno : ¬ s.Overlaps (.advance k)) :
    Live (match s.removeTorrentScope phase with
      | (s', .done) => s'.setCall k .done
      | (s', phase') => s'.setCall k (.retire phase')) := by
  have hserving (call' : EngineCall) (caller : ℕ) (h : s.calls[caller]? = some .serving) :
      (s.calls.set k call')[caller]? = some .serving :=
    serving_set hcall (fun h => (nomatch h)) call' h
  have hpending := hs.pending
  rcases removeTorrentScope_cases s phase with ⟨hphase, phase', hphase', hremove⟩ |
    ⟨scope, handle, rfl, hscope, hremove⟩ | ⟨rfl, hremove⟩
  · have hold : (EngineCall.retire phase).unregisters = false := by
      cases phase <;> simp_all [EngineCall.unregisters]
    rw [hremove]
    cases phase' with
    | done => exact hs.setCall hcall (fun h => (nomatch h)) hold rfl
    | lookup => exact hs.setCall hcall (fun h => (nomatch h)) hold rfl
    | close scope => exact hs.setCall hcall (fun h => (nomatch h)) hold rfl
    | unregister => exact absurd rfl hphase'
  · -- closing the scope of a torrent that is in the map is an overlap
    have htorrent : s.torrent = none := by
      by_contra hsome
      refine hno ?_
      simp only [Overlaps, hcall]
      exact ⟨hsome, handle, hscope⟩
    obtain ⟨hscopes, hfits, hclosed, hreturned⟩ := hs.close htorrent hscope
    have hcount : (s.setCall k (.retire .unregister)).pending + 0 = s.pending + 1 :=
      s.pending_setCall hcall _
    rw [hremove]
    refine ⟨⟨hscopes.present, hscopes.retired, hscopes.known⟩, ?_, ?_, hreturned⟩
    · exact hfits.congr (hserving _) rfl rfl rfl fun _ h => h
    · exact (hcount.trans (congrArg (· + 1) hpending)).trans hclosed.symm
  · have hcount : (s.setCall k .done).pending + 1 = s.pending + 0 := s.pending_setCall hcall _
    have hone : s.closedCount = 1 := by
      have hle := s.closedCount_le_one
      omega
    obtain ⟨hscopes, hfits, hclosed⟩ := hs.unregister hone
    rw [hremove]
    refine ⟨⟨hscopes.present, hscopes.retired, hscopes.known⟩, ?_, ?_, hs.returned⟩
    · exact hfits.congr (hserving _) rfl rfl rfl fun _ h => h
    · refine Eq.trans ?_ hclosed.symm
      have hzero : (s.setCall k .done).pending = 0 := by omega
      exact hzero

/-- While there is a torrent in the map, the handle of the scope is its handle. -/
theorem Live.torrent_of_handle (hs : s.Live) (hsome : s.torrent ≠ none) {state : ScopeState}
    (hscope : s.scope? = some state) {actor : ℕ} (hactor : state.handle = some actor) :
    s.torrent = some actor := by
  have hfits := hs.fits
  have hnone (h : s.scope? = none ∨ s.scope? = some ⟨none, false⟩) : False := by
    rcases h with h | h
    · rw [hscope] at h
      cases h
    · rw [hscope, Option.some.injEq] at h
      rw [h] at hactor
      cases hactor
  cases htask : s.task with
  | idle =>
      rw [htask] at hfits
      obtain ⟨actor', hactor'⟩ := Option.ne_none_iff_exists'.1 hsome
      have hopen := hfits actor' hactor'
      rw [hscope, Option.some.injEq] at hopen
      rw [hopen] at hactor
      exact hactor'.trans hactor
  | spawned caller actor' restoring =>
      rw [htask] at hfits
      exact absurd hfits.2.1 hsome
  | inserted caller actor' =>
      rw [htask] at hfits
      exact (hnone hfits.2.2.2).elim
  | registering caller actor' scope =>
      rw [htask] at hfits
      exact (hnone (.inr hfits.2.2.2.2)).elim
  | discarding caller phase =>
      rw [htask] at hfits
      exact absurd hfits.2 hsome

/-- A call goes on. -/
theorem Live.advance (hs : s.Live) {k : ℕ} (hno : ¬ s.Overlaps (.advance k)) :
    (s.advance k).Live := by
  rcases hcall : s.calls[k]? with _ | call
  · simpa [HubState.advance, hcall] using hs
  · cases call with
    | lookup =>
        simp only [HubState.advance, hcall]
        split
        · exact hs.setCall hcall (fun h => (nomatch h)) rfl rfl
        · exact hs.setCall hcall (fun h => (nomatch h)) rfl rfl
    | read scope =>
        simp only [HubState.advance, hcall]
        split
        · rename_i actor hhandle
          have hset := hs.setCall hcall (fun h => (nomatch h)) rfl
            (rfl : EngineCall.done.unregisters = false)
          refine ⟨⟨hset.scopes.present, hset.scopes.retired, hset.scopes.known⟩,
            hset.fits.congr (fun _ h => h) rfl rfl rfl fun _ h => h, hset.pending, ?_⟩
          -- the scope is the one of the torrent in the map
          obtain ⟨state, hstate, hactor⟩ := Option.bind_eq_some_iff.1 hhandle
          have hmap : s.registry = some scope ∧ s.torrent ≠ none := by
            by_contra hnot
            refine hno ?_
            simp only [Overlaps, hcall, hhandle]
            exact ⟨fun h => (nomatch h), hnot⟩
          have hscope : s.scope? = some state := by
            rw [scope?, hmap.1]
            exact hstate
          intro r hr
          rcases List.mem_append.1 hr with hr | hr
          · exact hs.returned r hr
          · rw [List.mem_singleton.1 hr]
            exact ⟨hs.torrent_of_handle hmap.2 hscope hactor, state, List.mem_of_getElem? hstate,
              hactor⟩
        · exact hs.setCall hcall (fun h => (nomatch h)) rfl rfl
    | wait actor =>
        simp only [HubState.advance, hcall]
        exact hs.setCall hcall (fun h => (nomatch h)) rfl rfl
    | retire phase =>
        simp only [HubState.advance, hcall]
        exact hs.retire hcall hno
    | _ => simpa [HubState.advance, hcall] using hs

/-- **A step without overlap.** -/
theorem Live.step (hs : s.Live) {i : HandleInput} (hno : ¬ s.Overlaps i) : (s.step i).Live := by
  cases i with
  | add => exact hs.addCall rfl
  | restore => exact hs.addCall rfl
  | remove => exact hs.addCall rfl
  | serve k => exact hs.serve k
  | work ok => exact hs.work hno
  | advance k => exact hs.advance hno
  | ensureTorrentScope => exact hs.ensureTorrentScope

end HubState

/-- **Handles name the live torrent** in every run in which no removal and no creation overlap. -/
theorem handles_name_the_live_torrent {s : HubState}
    (h : handleSystem.Reach (fun s i => ¬ s.Overlaps i) s) : s.Names := by
  have hs : s.Live := by
    refine h.invariant ?_ ?_
    · rintro s rfl
      exact HubState.live_empty
    · rintro s i t hs hno rfl
      exact hs.step hno
  exact hs.names

namespace Sample

/-- A torrent is added. -/
def addOnce : List HandleInput :=
  [.add, .serve 0, .ensureTorrentScope, .work true, .work true, .work true, .advance 0, .advance 0]

end Sample

namespace Sample

/-- It is removed with its scope, and then restored. -/
def addTwice : List HandleInput :=
  addOnce ++ [.remove, .serve 1, .advance 1, .advance 1, .advance 1, .advance 1, .restore, .serve 2, .work true,
    .work true, .work true, .advance 2, .advance 2]

end Sample

/-- The torrent that was restored is in the map, and the second handle is its handle. -/
theorem handles_name_the_live_torrent_sample :
    (Sample.addTwice.foldl HubState.step .empty).returned = [(0, some 0), (1, some 1)] ∧
    (Sample.addTwice.foldl HubState.step .empty).torrent = some 1 ∧
    (Sample.addTwice.foldl HubState.step .empty).Names := by
  refine ⟨rfl, rfl, handles_name_the_live_torrent (System.Reach.along (fun _ _ => rfl) (.init rfl)
    ⟨id, id, id, ?_, id, id, id, ?_, id, id, id, id, ?_, id, id, id, ?_, id, id, id, ?_, trivial⟩)⟩
  · exact fun h => h.2.2 rfl
  · exact fun h => h.2 ⟨rfl, fun h => (nomatch h)⟩
  · exact fun h => h.1 rfl
  · exact fun h => h.2.1 rfl
  · exact fun h => h.2 ⟨rfl, fun h => (nomatch h)⟩

namespace Sample

/-- The torrent is taken out of the map, added again, and only then its scope is removed. -/
def addAgain : List HandleInput :=
  addOnce ++ [.remove, .serve 1, .add, .serve 2, .work true, .work true, .work true, .advance 2,
    .advance 2]

end Sample

/-- A torrent that is added again while its removal waits gets the handle of the old actor, `0`,
while the map has the new one, `1`. -/
theorem stale_handle_returned :
    ∃ s, handleSystem.Reach (fun _ _ => True) s ∧ (0, some 1) ∈ s.returned ∧ ¬ s.Names := by
  refine ⟨Sample.addAgain.foldl HubState.step .empty,
    .foldl (fun _ _ => rfl) Sample.addAgain (.init rfl), by decide, ?_⟩
  intro h
  exact absurd (h (0, some 1) (by decide)).1 (by decide)

end Tortillas
