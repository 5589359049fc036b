/-
**Creating torrents and restoring an engine.**

`engine/messages.rs`: a torrent is created in steps that may fail.  A snapshot is checked and
reconciled with the files, the actor is spawned and asked to take over the snapshot, it is put into
the map and registered with the DHT, it is asked to resume, it is asked for its view, and its scope
is registered with the hub.  A failure after the actor was spawned discards it.  An engine is restored
torrent by torrent; a failure removes those that were restored before.

What the actors answer, what the files hold, and whether the DHT stops or is restarted meanwhile, is
the environment's.  The engine is at one request here: a scope that a removal closes has left the
registry when the removal is over, so that the scopes in the registry are open.

Main definitions:

* `EngineState` — the map, the scopes of the hub with their handles, and the DHT;
* `EngineState.createTorrent`, `EngineState.discardFailedTorrent`, `EngineState.removeTorrent`;
* `EngineState.restoreEngine`.

Main results:

* `EngineState.createTorrent_restore_ok`, `EngineState.createTorrent_restore_error` — what restoring
  one torrent does when it succeeds and when it fails;
* `EngineState.rollBack_spec` — what is left after a rollback;
* `restore_engine_all_or_nothing` — **restoring an engine is all or nothing**.
-/

import Tortillas.HashMap
import Tortillas.SnapshotSchema

set_option relaxedAutoImplicit false
set_option autoImplicit false

namespace Tortillas

variable {H : Type}

/-- The DHT actor, as far as the engine deals with it: its registrations, once it has handled what
it was told. -/
structure DhtLink (H : Type) where
  running : Bool
  torrents : HashMap H ℕ

/-- What happens to the DHT before it is told something. -/
inductive DhtFate
  | runs
  | restarts
  | stops

structure EngineState (H : Type) where
  torrents : HashMap H ℕ
  /-- The number of torrent actors that were spawned. -/
  spawned : ℕ
  /-- The scopes in the hub's registry, with their handles. -/
  scopes : HashMap H (Option ℕ)
  dht : Option (DhtLink H)

/-- The environment of one creation. -/
structure CreateEnv where
  fs : FileStore Path
  folder : Option Bool
  /-- The actor starts far enough to make its scope. -/
  projects : Bool
  restoreSnapshot : Except String Unit
  localAddr : Bool
  setState : Except String Unit
  getLiveView : Except String Unit
  dhtAtRegister : DhtFate
  dhtAtDiscard : DhtFate

inductive CreateTorrentRequest (H : Type)
  | new (metainfo : MetaInfo H)
  | restore (snapshot : TorrentSnapshot H) (validated : Bool) (verification : RestoreVerification)

variable [DecidableEq H]

namespace DhtLink

/-- A restart empties the table; a DHT that has stopped has none. -/
def meet (d : DhtLink H) : DhtFate → DhtLink H
  | .runs => d
  | .restarts => { d with torrents := ∅ }
  | .stops => ⟨false, ∅⟩

/-- `RegisterTorrent`; a DHT that has stopped is not told. -/
def registerTorrent (d : DhtLink H) (hash : H) (actor : ℕ) : DhtLink H :=
  if d.running then { d with torrents := d.torrents.insert hash actor } else d

/-- `UnregisterTorrent`. -/
def unregisterTorrent (d : DhtLink H) (hash : H) : DhtLink H :=
  if d.running then { d with torrents := d.torrents.erase hash } else d

/-- The registrations of a DHT that has stopped do not count. -/
def Registered (d : DhtLink H) (hash : H) (actor : ℕ) : Prop :=
  d.running = true ∧ d.torrents.get? hash = some actor

end DhtLink

namespace EngineState

/-- A torrent is registered with the DHT. -/
def DhtRegistered (s : EngineState H) (hash : H) (actor : ℕ) : Prop :=
  ∃ d, s.dht = some d ∧ d.Registered hash actor

/-- A torrent has a registered scope with the hub: its handle is in the scope of its hash. -/
def ScopeRegistered (s : EngineState H) (hash : H) (actor : ℕ) : Prop :=
  s.scopes.get? hash = some (some actor)

/-- Tell the DHT to forget a torrent. -/
def unregisterDht (s : EngineState H) (fate : DhtFate) (hash : H) : EngineState H :=
  { s with dht := s.dht.map fun d => (d.meet fate).unregisterTorrent hash }

/-- Register with the DHT, unless the source is private or the port is not known. -/
def registerDht (s : EngineState H) (env : CreateEnv) (isPrivate : Bool) (hash : H) (actor : ℕ) :
    EngineState H :=
  if !isPrivate && env.localAddr then
    { s with dht := s.dht.map fun d => (d.meet env.dhtAtRegister).registerTorrent hash actor }
  else s

/-- `register_torrent_scope`: a handle that is set stays as it is. -/
def registerTorrentScope (s : EngineState H) (hash : H) (actor : ℕ) : EngineState H :=
  { s with scopes := s.scopes.insert hash (((s.scopes.get? hash).getD none).or (some actor)) }

/-- `remove_torrent_scope`. -/
def removeTorrentScope (s : EngineState H) (hash : H) : EngineState H :=
  { s with scopes := s.scopes.erase hash }

def discardFailedTorrent (s : EngineState H) (env : CreateEnv) (hash : H) : EngineState H :=
  let s' :=
    if s.torrents.contains hash then
      { s with torrents := s.torrents.erase hash }.unregisterDht env.dhtAtDiscard hash
    else s
  s'.removeTorrentScope hash

/-- The actor is spawned; while it starts it makes its scope. -/
def spawn (s : EngineState H) (env : CreateEnv) (hash : H) : EngineState H :=
  { s with
    spawned := s.spawned + 1
    scopes :=
      if env.projects then s.scopes.insert hash ((s.scopes.get? hash).getD none) else s.scopes }

/-- The source, whether a snapshot is taken over, and whether the torrent is to resume. -/
def requestParts (c : Codec H) (env : CreateEnv) :
    CreateTorrentRequest H → Except String (MetaInfo H × Bool × Bool)
  | .new metainfo => .ok (metainfo, false, false)
  | .restore snapshot validated verification => do
      if !validated then snapshot.validate c
      let snapshot ← snapshot.reconcileStorage c env.fs env.folder verification
      .ok (snapshot.metainfo, true, snapshot.state.isTransferActive)

/-- The torrent is put into the map and registered with the DHT. -/
def enroll (s : EngineState H) (env : CreateEnv) (metainfo : MetaInfo H) (hash : H) (actor : ℕ) :
    EngineState H :=
  { s with torrents := s.torrents.insert hash actor }.registerDht env metainfo.isPrivate hash actor

/-- The steps of a creation after the actor was spawned. -/
def createSpawned (s : EngineState H) (env : CreateEnv) (metainfo : MetaInfo H) (hash : H)
    (actor : ℕ) (restoring resume : Bool) : EngineState H × Except String ℕ :=
  match if restoring then env.restoreSnapshot else .ok () with
  | .error e => (s.discardFailedTorrent env hash, .error e)
  | .ok () =>
      let s' := s.enroll env metainfo hash actor
      match if resume then env.setState else .ok () with
      | .error e => (s'.discardFailedTorrent env hash, .error e)
      | .ok () =>
          match env.getLiveView with
          | .error e => (s'.discardFailedTorrent env hash, .error e)
          | .ok () => (s'.registerTorrentScope hash actor, .ok actor)

def createTorrent (c : Codec H) (env : CreateEnv) (s : EngineState H)
    (request : CreateTorrentRequest H) : EngineState H × Except String ℕ :=
  match requestParts c env request with
  | .error e => (s, .error e)
  | .ok (metainfo, restoring, resume) =>
      match metainfo.infoHash c with
      | none => (s, .error "failed to unwrap info hash")
      | some hash =>
          if s.torrents.contains hash then (s, .error "torrent already exists")
          else (s.spawn env hash).createSpawned env metainfo hash s.spawned restoring resume

/-- `remove_torrent`: the torrent leaves the map, and the DHT is told to forget it. -/
def removeTorrent (s : EngineState H) (fate : DhtFate) (hash : H) : EngineState H × Option ℕ :=
  match s.torrents.get? hash with
  | none => (s, none)
  | some actor => ({ s with torrents := s.torrents.erase hash }.unregisterDht fate hash, some actor)

/-- Remove what was restored before a failure. -/
def rollBack (fates : H → DhtFate) (s : EngineState H) (restored : List H) : EngineState H :=
  restored.foldl (fun s hash =>
    match s.removeTorrent (fates hash) hash with
    | (s', some _) => s'.removeTorrentScope hash
    | (s', none) => s') s

/-- The loop over the torrents of a snapshot; `restored` are the hashes of those before. -/
def restoreTorrents (c : Codec H) (envs : ℕ → CreateEnv) (fates : H → DhtFate)
    (verification : RestoreVerification) :
    EngineState H → List (TorrentSnapshot H) → List H → EngineState H × Except String (List H)
  | s, [], restored => (s, .ok restored)
  | s, torrent :: torrents, restored =>
      match s.createTorrent c (envs restored.length) (.restore torrent true verification) with
      | (s', .ok _) =>
          restoreTorrents c envs fates verification s' torrents (restored ++ [torrent.infoHash])
      | (s', .error e) => (s'.rollBack fates restored, .error e)

def restoreEngine (c : Codec H) (envs : ℕ → CreateEnv) (fates : H → DhtFate) (s : EngineState H)
    (snapshot : EngineSnapshot H) (verification : RestoreVerification) :
    EngineState H × Except String (List H) :=
  match snapshot.validate c with
  | .error e => (s, .error e)
  | .ok () =>
      if s.torrents.toList.isEmpty then
        restoreTorrents c envs fates verification s snapshot.torrents []
      else (s, .error "target engine already manages torrents")

end EngineState

/-! ### The DHT -/

namespace DhtLink

variable {d : DhtLink H} {h hash : H} {a actor : ℕ}

theorem Registered.of_meet {fate : DhtFate} (hd : (d.meet fate).Registered h a) :
    d.Registered h a := by
  obtain ⟨hrunning, hget⟩ := hd
  cases fate with
  | runs => exact ⟨hrunning, hget⟩
  | restarts => simp [meet] at hget
  | stops => simp [meet] at hrunning

theorem Registered.of_registerTorrent (hd : (d.registerTorrent hash actor).Registered h a)
    (hne : h ≠ hash) : d.Registered h a := by
  unfold registerTorrent at hd
  split at hd
  · obtain ⟨hrunning, hget⟩ := hd
    exact ⟨hrunning, by rwa [HashMap.get?_insert_of_ne hne] at hget⟩
  · exact hd

theorem Registered.of_unregisterTorrent (hd : (d.unregisterTorrent hash).Registered h a) :
    h ≠ hash ∧ d.Registered h a := by
  unfold unregisterTorrent at hd
  split at hd
  · obtain ⟨hrunning, hget⟩ := hd
    obtain ⟨hne, hbefore⟩ := HashMap.get?_of_get?_erase hget
    exact ⟨hne, hrunning, hbefore⟩
  · rename_i hstopped
    exact absurd hd.1 hstopped

end DhtLink

namespace EngineState

variable {s t u : EngineState H} {h hash : H} {a actor : ℕ}

/-- Telling the DHT to forget a torrent: it is forgotten, and no other becomes registered. -/
theorem DhtRegistered.of_unregisterDht {fate : DhtFate}
    (hd : (s.unregisterDht fate hash).DhtRegistered h a) : h ≠ hash ∧ s.DhtRegistered h a := by
  obtain ⟨d', hd', hreg⟩ := hd
  obtain ⟨d, hsome, rfl⟩ := Option.map_eq_some_iff.1 hd'
  obtain ⟨hne, hreg⟩ := hreg.of_unregisterTorrent
  exact ⟨hne, d, hsome, hreg.of_meet⟩

/-- Registering a torrent with the DHT: no other becomes registered. -/
theorem DhtRegistered.of_registerDht {env : CreateEnv} {isPrivate : Bool}
    (hd : (s.registerDht env isPrivate hash actor).DhtRegistered h a) (hne : h ≠ hash) :
    s.DhtRegistered h a := by
  unfold registerDht at hd
  split at hd
  · obtain ⟨d', hd', hreg⟩ := hd
    obtain ⟨d, hsome, rfl⟩ := Option.map_eq_some_iff.1 hd'
    exact ⟨d, hsome, (hreg.of_registerTorrent hne).of_meet⟩
  · exact hd

@[simp] theorem registerDht_torrents (env : CreateEnv) (isPrivate : Bool) :
    (s.registerDht env isPrivate hash actor).torrents = s.torrents := by
  unfold registerDht
  split <;> rfl

@[simp] theorem registerDht_scopes (env : CreateEnv) (isPrivate : Bool) :
    (s.registerDht env isPrivate hash actor).scopes = s.scopes := by
  unfold registerDht
  split <;> rfl

/-! ### What is left at a hash -/

/-- At this hash the map is as it was, and nothing is registered that was not registered before. -/
structure Rests (s t : EngineState H) (h : H) : Prop where
  torrents : t.torrents.get? h = s.torrents.get? h
  scope : ∀ a, t.ScopeRegistered h a → s.ScopeRegistered h a
  dht : ∀ a, t.DhtRegistered h a → s.DhtRegistered h a

/-- At this hash nothing is left. -/
structure Gone (s : EngineState H) (h : H) : Prop where
  torrents : s.torrents.get? h = none
  scope : ∀ a, ¬ s.ScopeRegistered h a
  dht : ∀ a, ¬ s.DhtRegistered h a

theorem Rests.refl (s : EngineState H) (h : H) : s.Rests s h :=
  ⟨rfl, fun _ ha => ha, fun _ ha => ha⟩

theorem Rests.trans (hst : s.Rests t h) (htu : t.Rests u h) : s.Rests u h :=
  ⟨htu.torrents.trans hst.torrents, fun a ha => hst.scope a (htu.scope a ha),
    fun a ha => hst.dht a (htu.dht a ha)⟩

theorem Gone.rests (hgone : t.Gone h) (hnone : s.torrents.get? h = none) : s.Rests t h :=
  ⟨hgone.torrents.trans hnone.symm, fun a ha => absurd ha (hgone.scope a),
    fun a ha => absurd ha (hgone.dht a)⟩

theorem Rests.gone (hrests : s.Rests t h) (hgone : s.Gone h) : t.Gone h :=
  ⟨hrests.torrents.trans hgone.torrents, fun a ha => hgone.scope a (hrests.scope a ha),
    fun a ha => hgone.dht a (hrests.dht a ha)⟩

/-! ### One creation -/

section Creation

variable {env : CreateEnv} {metainfo : MetaInfo H}

/-- The scope that a starting actor makes has no handle. -/
theorem spawn_rests (env : CreateEnv) (hash h : H) : s.Rests (s.spawn env hash) h := by
  refine ⟨rfl, fun a ha => ?_, fun a ha => ha⟩
  simp only [ScopeRegistered, spawn] at ha ⊢
  split at ha
  · by_cases heq : h = hash
    · subst heq
      rw [HashMap.get?_insert_self] at ha
      cases hget : s.scopes.get? h with
      | none => simp [hget] at ha
      | some handle => simpa [hget] using ha
    · rwa [HashMap.get?_insert_of_ne heq] at ha
  · exact ha

theorem enroll_get? : (s.enroll env metainfo hash actor).torrents.get? hash = some actor := by
  simp [enroll]

theorem enroll_rests (hne : h ≠ hash) : s.Rests (s.enroll env metainfo hash actor) h where
  torrents := by simp [enroll, HashMap.get?_insert_of_ne hne]
  scope := fun a ha => by simpa [enroll, ScopeRegistered] using ha
  dht := fun a ha => by
    obtain ⟨d, hd, hreg⟩ := DhtRegistered.of_registerDht ha hne
    exact ⟨d, hd, hreg⟩

theorem registerTorrentScope_rests (hne : h ≠ hash) :
    s.Rests (s.registerTorrentScope hash actor) h where
  torrents := rfl
  scope := fun a ha => by
    simpa [registerTorrentScope, ScopeRegistered, HashMap.get?_insert_of_ne hne] using ha
  dht := fun a ha => ha

/-- The scope has a handle: that of the actor, unless it had one before. -/
theorem registerTorrentScope_registered :
    ∃ a, (s.registerTorrentScope hash actor).ScopeRegistered hash a ∧
      ((∀ b, ¬ s.ScopeRegistered hash b) → a = actor) := by
  simp only [registerTorrentScope, ScopeRegistered, HashMap.get?_insert_self]
  cases hscope : s.scopes.get? hash with
  | none => exact ⟨actor, rfl, fun _ => rfl⟩
  | some handle =>
      cases handle with
      | none => exact ⟨actor, rfl, fun _ => rfl⟩
      | some old => exact ⟨old, rfl, fun hnone => absurd rfl (hnone old)⟩

theorem removeTorrentScope_rests (hash h : H) : s.Rests (s.removeTorrentScope hash) h where
  torrents := rfl
  scope := fun _ ha => (HashMap.get?_of_get?_erase ha).2
  dht := fun _ ha => ha

/-- Taking a torrent out of the map, telling the DHT, and removing the scope leaves nothing. -/
theorem erased_gone (fate : DhtFate) :
    (({ s with torrents := s.torrents.erase hash }.unregisterDht fate hash).removeTorrentScope
      hash).Gone hash where
  torrents := HashMap.get?_erase_self _ _
  scope := fun _ ha => (HashMap.get?_of_get?_erase ha).1 rfl
  dht := fun _ ha => (DhtRegistered.of_unregisterDht ha).1 rfl

theorem erased_rests (fate : DhtFate) (hne : h ≠ hash) :
    s.Rests (({ s with torrents := s.torrents.erase hash }.unregisterDht fate
      hash).removeTorrentScope hash) h where
  torrents := HashMap.get?_erase_of_ne hne
  scope := fun _ ha => (HashMap.get?_of_get?_erase ha).2
  dht := fun _ ha => by
    obtain ⟨d, hd, hreg⟩ := (DhtRegistered.of_unregisterDht ha).2
    exact ⟨d, hd, hreg⟩

/-- Discarding a torrent that is in the map leaves nothing of it. -/
theorem discardFailedTorrent_gone (hget : s.torrents.get? hash = some actor) :
    (s.discardFailedTorrent env hash).Gone hash := by
  have hcontains : s.torrents.contains hash = true := by rw [HashMap.contains, hget]; rfl
  rw [discardFailedTorrent, if_pos hcontains]
  exact erased_gone _

theorem discardFailedTorrent_rests (hne : h ≠ hash) :
    s.Rests (s.discardFailedTorrent env hash) h := by
  unfold discardFailedTorrent
  split
  · exact erased_rests _ hne
  · exact removeTorrentScope_rests hash h

/-- Discarding a torrent that is not in the map yet takes nothing else away. -/
theorem discardFailedTorrent_rests_of_none (hget : s.torrents.get? hash = none) (h : H) :
    s.Rests (s.discardFailedTorrent env hash) h := by
  have hcontains : ¬ s.torrents.contains hash = true := by rw [HashMap.contains, hget]; simp
  rw [discardFailedTorrent, if_neg hcontains]
  exact removeTorrentScope_rests hash h

/-- How a creation ends: discarded before or after the torrent was put into the map, or done. -/
theorem createSpawned_cases (s : EngineState H) (env : CreateEnv) (metainfo : MetaInfo H) (hash : H)
    (actor : ℕ) (restoring resume : Bool) :
    (∃ e, s.createSpawned env metainfo hash actor restoring resume =
      (s.discardFailedTorrent env hash, .error e)) ∨
    (∃ e, s.createSpawned env metainfo hash actor restoring resume =
      ((s.enroll env metainfo hash actor).discardFailedTorrent env hash, .error e)) ∨
    s.createSpawned env metainfo hash actor restoring resume =
      ((s.enroll env metainfo hash actor).registerTorrentScope hash actor, .ok actor) := by
  unfold createSpawned
  split
  · exact .inl ⟨_, rfl⟩
  · dsimp only
    split
    · exact .inr (.inl ⟨_, rfl⟩)
    · split
      · exact .inr (.inl ⟨_, rfl⟩)
      · exact .inr (.inr rfl)

/-- A creation that fails after the actor was spawned leaves nothing behind. -/
theorem createSpawned_error {restoring resume : Bool} {e : String}
    (hnone : s.torrents.get? hash = none)
    (herror : (s.createSpawned env metainfo hash actor restoring resume).2 = .error e) (h : H) :
    s.Rests (s.createSpawned env metainfo hash actor restoring resume).1 h := by
  rcases createSpawned_cases s env metainfo hash actor restoring resume with
    ⟨e', heq⟩ | ⟨e', heq⟩ | heq
  · rw [heq]
    exact discardFailedTorrent_rests_of_none hnone h
  · rw [heq]
    by_cases hne : h = hash
    · subst hne
      exact (discardFailedTorrent_gone enroll_get?).rests hnone
    · exact (enroll_rests hne).trans (discardFailedTorrent_rests hne)
  · rw [heq] at herror
    cases herror

/-- A creation that succeeds: the torrent is in the map and has a registered scope, its own unless there was one. -/
theorem createSpawned_ok {restoring resume : Bool} {a : ℕ}
    (hok : (s.createSpawned env metainfo hash actor restoring resume).2 = .ok a) :
    (s.createSpawned env metainfo hash actor restoring resume).1.torrents.get? hash = some a ∧
      (∃ b, (s.createSpawned env metainfo hash actor restoring resume).1.ScopeRegistered hash b ∧
        ((∀ b', ¬ s.ScopeRegistered hash b') → b = a)) ∧
      ∀ h, h ≠ hash →
        s.Rests (s.createSpawned env metainfo hash actor restoring resume).1 h := by
  rcases createSpawned_cases s env metainfo hash actor restoring resume with
    ⟨e', heq⟩ | ⟨e', heq⟩ | heq
  · rw [heq] at hok
    cases hok
  · rw [heq] at hok
    cases hok
  · rw [heq] at hok ⊢
    cases hok
    obtain ⟨b, hb, hown⟩ :
        ∃ b, ((s.enroll env metainfo hash actor).registerTorrentScope hash actor).ScopeRegistered hash b ∧
          ((∀ b', ¬ (s.enroll env metainfo hash actor).ScopeRegistered hash b') → b = actor) :=
      registerTorrentScope_registered
    refine ⟨enroll_get?, ⟨b, hb, fun hnone => hown fun b' hb' => hnone b' ?_⟩,
      fun h hne => (enroll_rests hne).trans (registerTorrentScope_rests hne)⟩
    simpa [enroll, ScopeRegistered] using hb'

theorem createSpawned_scopes {restoring resume : Bool} (hne : h ≠ hash) :
    (s.createSpawned env metainfo hash actor restoring resume).1.scopes.get? h =
      s.scopes.get? h := by
  have hdiscard : ∀ t : EngineState H, t.scopes.get? h = s.scopes.get? h →
      (t.discardFailedTorrent env hash).scopes.get? h = s.scopes.get? h := by
    intro t ht
    unfold discardFailedTorrent
    split <;> exact (HashMap.get?_erase_of_ne hne).trans ht
  rcases createSpawned_cases s env metainfo hash actor restoring resume with
    ⟨e', heq⟩ | ⟨e', heq⟩ | heq
  · rw [heq]
    exact hdiscard s rfl
  · rw [heq]
    exact hdiscard _ (by simp [enroll])
  · rw [heq]
    simp [registerTorrentScope, enroll, HashMap.get?_insert_of_ne hne]

/-- Restoring one torrent of a valid snapshot: it is refused before anything happened, or an actor is
spawned for the hash of the snapshot, which was not in the map. -/
theorem createTorrent_restore_cases {c : Codec H} {torrent : TorrentSnapshot H}
    (hv : torrent.IsValid c) (s : EngineState H) (env : CreateEnv) (validated : Bool)
    (verification : RestoreVerification) :
    (∃ e, s.createTorrent c env (.restore torrent validated verification) = (s, .error e)) ∨
    (s.torrents.get? torrent.infoHash = none ∧ ∃ metainfo resume,
      s.createTorrent c env (.restore torrent validated verification) =
        (s.spawn env torrent.infoHash).createSpawned env metainfo torrent.infoHash s.spawned true
          resume) := by
  have hvalidate : torrent.validate c = .ok () := (TorrentSnapshot.validate_ok_iff c torrent).2 hv
  cases hfound : torrent.reconcileStorage c env.fs env.folder verification with
  | error e =>
      refine .inl ⟨e, ?_⟩
      cases validated <;> simp [createTorrent, requestParts, hvalidate, hfound] <;> rfl
  | ok found =>
      have hparts : requestParts c env (.restore torrent validated verification) =
          .ok (found.metainfo, true, found.state.isTransferActive) := by
        cases validated <;> simp [requestParts, hvalidate, hfound] <;> rfl
      have hhash : found.metainfo.infoHash c = some torrent.infoHash := by
        rw [TorrentSnapshot.reconcileStorage_eq hfound]
        exact hv.infoHash
      cases hget : s.torrents.get? torrent.infoHash with
      | some old =>
          exact .inl ⟨"torrent already exists", by
            simp [createTorrent, hparts, hhash, HashMap.contains, hget]⟩
      | none =>
          exact .inr ⟨rfl, found.metainfo, found.state.isTransferActive, by
            simp [createTorrent, hparts, hhash, HashMap.contains, hget]⟩

/-- **A creation that fails leaves nothing behind.** -/
theorem createTorrent_restore_error {c : Codec H} {torrent : TorrentSnapshot H}
    (hv : torrent.IsValid c) {validated : Bool} {verification : RestoreVerification} {e : String}
    (hcreate : s.createTorrent c env (.restore torrent validated verification) = (t, .error e))
    (h : H) : s.Rests t h := by
  rcases createTorrent_restore_cases hv s env validated verification with
    ⟨e', heq⟩ | ⟨hnone, metainfo, resume, heq⟩
  · rw [heq] at hcreate
    cases hcreate
    exact Rests.refl s h
  · rw [heq] at hcreate
    have hrests := createSpawned_error (s := s.spawn env torrent.infoHash) hnone
      (congrArg Prod.snd hcreate) h
    rw [hcreate] at hrests
    exact (spawn_rests env torrent.infoHash h).trans hrests

/-- **A creation that succeeds**: the torrent was not in the map; it is now, with a registered scope;
and at other hashes nothing is registered that was not before, and no scope is lost. -/
theorem createTorrent_restore_ok {c : Codec H} {torrent : TorrentSnapshot H}
    (hv : torrent.IsValid c) {validated : Bool} {verification : RestoreVerification}
    (hcreate : s.createTorrent c env (.restore torrent validated verification) = (t, .ok a)) :
    s.torrents.get? torrent.infoHash = none ∧ t.torrents.get? torrent.infoHash = some a ∧
      (∃ b, t.ScopeRegistered torrent.infoHash b ∧
        ((∀ b', ¬ s.ScopeRegistered torrent.infoHash b') → b = a)) ∧
      ∀ h, h ≠ torrent.infoHash → s.Rests t h ∧ t.scopes.get? h = s.scopes.get? h := by
  rcases createTorrent_restore_cases hv s env validated verification with
    ⟨e', heq⟩ | ⟨hnone, metainfo, resume, heq⟩
  · rw [heq] at hcreate
    cases hcreate
  · rw [heq] at hcreate
    obtain ⟨hget, ⟨b, hscope, hown⟩, hothers⟩ := createSpawned_ok (congrArg Prod.snd hcreate)
    refine ⟨hnone, ?_, ⟨b, ?_, fun hfree => hown fun b' hb' => ?_⟩, fun h hne => ⟨?_, ?_⟩⟩
    · rwa [hcreate] at hget
    · rwa [hcreate] at hscope
    · exact hfree b' ((spawn_rests env torrent.infoHash torrent.infoHash).scope b' hb')
    · have hrests := hothers h hne
      rw [hcreate] at hrests
      exact (spawn_rests env torrent.infoHash h).trans hrests
    · have hscopes : ((s.spawn env torrent.infoHash).createSpawned env metainfo torrent.infoHash
          s.spawned true resume).1.scopes.get? h = (s.spawn env torrent.infoHash).scopes.get? h :=
        createSpawned_scopes hne
      rw [hcreate] at hscopes
      refine hscopes.trans ?_
      simp only [spawn]
      split
      · exact HashMap.get?_insert_of_ne hne
      · rfl

end Creation

/-! ### Rolling back -/

/-- What was restored is gone, and nothing is registered at other hashes. -/
theorem rollBack_spec (fates : H → DhtFate) (restored : List H) (s : EngineState H)
    (hpresent : ∀ h ∈ restored, ∃ a, s.torrents.get? h = some a) (hnodup : restored.Nodup) :
    (∀ h ∈ restored, (s.rollBack fates restored).Gone h) ∧
      ∀ h, h ∉ restored → s.Rests (s.rollBack fates restored) h := by
  induction restored generalizing s with
  | nil => exact ⟨by simp, fun h _ => Rests.refl s h⟩
  | cons hash restored ih =>
      obtain ⟨hnot, hnodup⟩ := List.nodup_cons.1 hnodup
      obtain ⟨actor, hactor⟩ := hpresent hash List.mem_cons_self
      set t := ({ s with torrents := s.torrents.erase hash }.unregisterDht (fates hash)
        hash).removeTorrentScope hash with ht
      have hstep : s.rollBack fates (hash :: restored) = t.rollBack fates restored := by
        rw [rollBack, List.foldl_cons]
        simp only [removeTorrent, hactor]
        rfl
      -- the torrents that are left are still in the map
      have hpresent' : ∀ h ∈ restored, ∃ a, t.torrents.get? h = some a := by
        intro h hmem
        obtain ⟨a, ha⟩ := hpresent h (List.mem_cons_of_mem _ hmem)
        have hne : h ≠ hash := fun heq => hnot (heq ▸ hmem)
        exact ⟨a, (erased_rests (fates hash) hne).torrents.trans ha⟩
      obtain ⟨hgone, hrests⟩ := ih t hpresent' hnodup
      rw [hstep]
      refine ⟨?_, ?_⟩
      · intro h hmem
        rcases List.mem_cons.1 hmem with rfl | hmem
        · exact (hrests h hnot).gone (erased_gone (fates h))
        · exact hgone h hmem
      · intro h hmem
        obtain ⟨hne, hmem⟩ := not_or.1 (mt List.mem_cons.2 hmem)
        exact (erased_rests (fates hash) hne).trans (hrests h hmem)

/-! ### The loop -/

/-- The invariant of the loop: the torrents so far are in the map, each with a registered scope, which is its own where
there was none before the call, and nothing else is there that was not there before the call. -/
structure Restored (s₀ s : EngineState H) (restored : List H) : Prop where
  nodup : restored.Nodup
  present : ∀ h ∈ restored, ∃ a, s.torrents.get? h = some a
  scope : ∀ h ∈ restored, ∃ a, s.ScopeRegistered h a ∧
    ((∀ b, ¬ s₀.ScopeRegistered h b) → s.torrents.get? h = some a)
  rests : ∀ h, h ∉ restored → s₀.Rests s h

variable {s₀ : EngineState H} {restored : List H}

theorem Restored.create_ok {c : Codec H} {env : CreateEnv} {torrent : TorrentSnapshot H}
    {validated : Bool} {verification : RestoreVerification} (hr : Restored s₀ s restored)
    (hv : torrent.IsValid c)
    (hcreate : s.createTorrent c env (.restore torrent validated verification) = (t, .ok a)) :
    Restored s₀ t (restored ++ [torrent.infoHash]) := by
  obtain ⟨hnone, hget, ⟨b, hscope, hown⟩, hothers⟩ := createTorrent_restore_ok hv hcreate
  have hnot : torrent.infoHash ∉ restored := by
    intro hmem
    obtain ⟨b, hb⟩ := hr.present _ hmem
    rw [hnone] at hb
    cases hb
  refine ⟨?_, ?_, ?_, ?_⟩
  · rw [List.nodup_append]
    refine ⟨hr.nodup, List.nodup_singleton _, fun h hmem h' hmem' => ?_⟩
    rw [List.mem_singleton.1 hmem']
    exact fun heq => hnot (heq ▸ hmem)
  · intro h hmem
    by_cases heq : h = torrent.infoHash
    · exact ⟨a, heq ▸ hget⟩
    · obtain ⟨b, hb⟩ := hr.present h (by simpa [heq] using hmem)
      exact ⟨b, (hothers h heq).1.torrents.trans hb⟩
  · intro h hmem
    by_cases heq : h = torrent.infoHash
    · subst heq
      refine ⟨b, hscope, fun hfree => ?_⟩
      rw [hown fun b' hb' => hfree b' ((hr.rests _ hnot).scope b' hb'), hget]
    · obtain ⟨b, hb, hown⟩ := hr.scope h (by simpa [heq] using hmem)
      exact ⟨b, (hothers h heq).2.trans hb, fun hfree => (hothers h heq).1.torrents.trans (hown hfree)⟩
  · intro h hmem
    obtain ⟨hmem, hne⟩ : h ∉ restored ∧ h ≠ torrent.infoHash := by simpa using hmem
    exact (hr.rests h hmem).trans (hothers h hne).1

/-- A failure after some torrents were restored into an empty engine. -/
theorem Restored.rollBack {fates : H → DhtFate} (hr : Restored s₀ s restored)
    (hempty : ∀ h, s₀.torrents.get? h = none) (hrests : ∀ h, s.Rests t h) (h : H) :
    s₀.Rests (t.rollBack fates restored) h := by
  have hpresent : ∀ h ∈ restored, ∃ a, t.torrents.get? h = some a := by
    intro h hmem
    obtain ⟨a, ha⟩ := hr.present h hmem
    exact ⟨a, (hrests h).torrents.trans ha⟩
  obtain ⟨hgone, hothers⟩ := rollBack_spec fates restored t hpresent hr.nodup
  by_cases hmem : h ∈ restored
  · exact (hgone h hmem).rests (hempty h)
  · exact ((hr.rests h hmem).trans (hrests h)).trans (hothers h hmem)

/-- **The loop**: it restores every torrent that is left, or leaves nothing behind. -/
theorem restoreTorrents_spec (c : Codec H) (envs : ℕ → CreateEnv) (fates : H → DhtFate)
    (verification : RestoreVerification) (hempty : ∀ h, s₀.torrents.get? h = none)
    (torrents : List (TorrentSnapshot H)) (hvalid : ∀ torrent ∈ torrents, torrent.IsValid c)
    (s : EngineState H) (restored : List H) (hr : Restored s₀ s restored) :
    (∃ t, restoreTorrents c envs fates verification s torrents restored =
      (t, .ok (restored ++ torrents.map TorrentSnapshot.infoHash)) ∧
        Restored s₀ t (restored ++ torrents.map TorrentSnapshot.infoHash)) ∨
    ∃ t e, restoreTorrents c envs fates verification s torrents restored = (t, .error e) ∧
      ∀ h, s₀.Rests t h := by
  induction torrents generalizing s restored with
  | nil => exact .inl ⟨s, by simp [restoreTorrents], by simpa using hr⟩
  | cons torrent torrents ih =>
      have hv := hvalid torrent List.mem_cons_self
      rcases hcreate : s.createTorrent c (envs restored.length)
        (.restore torrent true verification) with ⟨t, e | a⟩
      · refine .inr ⟨t.rollBack fates restored, e, ?_, fun h => ?_⟩
        · simp [restoreTorrents, hcreate]
        · exact hr.rollBack hempty (fun h => createTorrent_restore_error hv hcreate h) h
      · have hnext := ih (fun torrent hmem => hvalid torrent (List.mem_cons_of_mem _ hmem)) t
          (restored ++ [torrent.infoHash]) (hr.create_ok hv hcreate)
        simpa [restoreTorrents, hcreate] using hnext

end EngineState

/-- **Restoring an engine is all or nothing**, for every snapshot, every verification mode and
whatever fails on the way.

* When it fails, the map is as it was, and no torrent has a registered scope or is registered with
  the DHT that had not before.
* When it succeeds, the hashes of the snapshot are returned in their order, they are exactly the keys
  of the map, and each has a registered scope, which has the handle of the restored torrent unless it
  had that of an earlier one. -/
theorem restore_engine_all_or_nothing (c : Codec H) (envs : ℕ → CreateEnv) (fates : H → DhtFate)
    (s : EngineState H) (snapshot : EngineSnapshot H) (verification : RestoreVerification) :
    match s.restoreEngine c envs fates snapshot verification with
    | (t, .error _) =>
        (∀ h, t.torrents.get? h = s.torrents.get? h) ∧
          (∀ h actor, t.ScopeRegistered h actor → s.ScopeRegistered h actor) ∧
          ∀ h actor, t.DhtRegistered h actor → s.DhtRegistered h actor
    | (t, .ok hashes) =>
        hashes = snapshot.torrents.map TorrentSnapshot.infoHash ∧
          (∀ h, (∃ actor, t.torrents.get? h = some actor) ↔ h ∈ hashes) ∧
          ∀ h ∈ hashes, ∃ actor, t.ScopeRegistered h actor ∧
            ((∀ old, ¬ s.ScopeRegistered h old) → t.torrents.get? h = some actor) := by
  unfold EngineState.restoreEngine
  cases hvalidate : snapshot.validate c with
  | error e => exact ⟨fun _ => rfl, fun _ _ ha => ha, fun _ _ ha => ha⟩
  | ok u =>
      -- the whole snapshot has passed the checks before the first torrent is created
      obtain ⟨-, hvalid, -⟩ := (EngineSnapshot.validate_ok_iff c snapshot).1 hvalidate
      by_cases hempty : s.torrents.toList.isEmpty = true
      · have hnone := HashMap.get?_eq_none_of_toList (List.isEmpty_iff.1 hempty)
        have hstart : EngineState.Restored s s [] :=
          ⟨List.nodup_nil, by simp, by simp, fun h _ => EngineState.Rests.refl s h⟩
        simp only [hempty, if_true]
        rcases EngineState.restoreTorrents_spec c envs fates verification hnone snapshot.torrents
          hvalid s [] hstart with ⟨t, heq, hr⟩ | ⟨t, e, heq, hrests⟩
        · rw [heq]
          refine ⟨rfl, fun h => ⟨?_, fun hmem => hr.present h hmem⟩, fun h hmem => hr.scope h hmem⟩
          rintro ⟨actor, hactor⟩
          by_contra hmem
          rw [(hr.rests h hmem).torrents, hnone h] at hactor
          cases hactor
        · rw [heq]
          exact ⟨fun h => (hrests h).torrents, fun h => (hrests h).scope, fun h => (hrests h).dht⟩
      · simp only [hempty]
        exact ⟨fun _ => rfl, fun _ _ ha => ha, fun _ _ ha => ha⟩

end Tortillas
