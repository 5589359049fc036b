/-
**The DHT actor and private torrents.**

`dht/actor.rs` and `dht/messages.rs`: the engine registers a torrent with the DHT actor when it is
created, unless its source says that it is private, and tells it to forget the torrent when it is
removed.  The DHT actor looks for peers of a registered torrent (`get_peers`), announces itself when
a lookup is finished (`announce_peer`), and repeats this by a timer.  When the timer fires it asks the
torrent for its metadata first, and forgets a torrent that is private.

The source of a torrent says nothing about privacy when it is a magnet link.  The metadata of such a
torrent arrives at any time, and a restored one has it from the start.

The engine, the torrents, the tasks and the DHT actor take turns in any order; the DHT actor waits for
the answer to its question, and goes on with it some time later.

Main definitions:

* `DhtSystem` — the torrents with what they know, the engine's map, and the DHT actor with its mailbox
  and its tasks;
* `DhtSystem.step` — one step, with the lookups and announcements that it starts;
* `DhtSystem.Spares` — the step exposes no torrent that is known to be private.

Main results:

* `DhtSystem.registered_public` — no torrent is registered whose source is private;
* `private_torrents_off_dht_iff` — **when exactly a run keeps private torrents off the DHT**;
* `restored_magnet_looked_up` — a restored magnet link with private metadata is looked up.
-/

import Tortillas.HashMap
import Tortillas.Snapshot
import Tortillas.TorrentActor
import Tortillas.Transition

set_option relaxedAutoImplicit false
set_option autoImplicit false

namespace Tortillas

variable {H : Type}

/-- A torrent actor, as far as privacy goes. -/
structure TorrentParty (H : Type) where
  infoHash : H
  metainfo : MetaInfo H
  resolvedMagnetInfo : Option (Info H)
  alive : Bool

namespace TorrentParty

/-- `info_dict`: the metadata, if it is known. -/
def infoDict (t : TorrentParty H) : Option (Info H) :=
  match t.metainfo with
  | .torrent info => some info
  | .magnetUri _ => t.resolvedMagnetInfo

/-- The metadata is known, and the torrent is private. -/
def KnownPrivate (t : TorrentParty H) : Prop := ∃ info, t.infoDict = some info ∧ info.isPrivate = some true

end TorrentParty

/-- A registration with the DHT. -/
structure DhtTorrent where
  actor : ℕ
  port : ℕ

structure LookupResult where
  peers : List ℕ
  announceCandidates : List ℕ

inductive DhtMessage (H : Type)
  | registerTorrent (infoHash : H) (actor port : ℕ)
  | unregisterTorrent (infoHash : H)
  | lookupTorrent (infoHash : H)
  | refreshTorrents
  | lookupFinished (infoHash : H) (result : LookupResult)

/-- The tasks of the DHT actor. -/
inductive DhtTask (H : Type)
  | lookup (infoHash : H)
  | timer (infoHash : H)
  | announce (infoHash : H)

/-- What the DHT actor starts: an iterative lookup, or an announcement to the nodes it found. -/
inductive DhtTraffic (H : Type)
  | getPeers (infoHash : H)
  | announcePeer (infoHash : H)
  deriving DecidableEq

def DhtTraffic.infoHash : DhtTraffic H → H
  | .getPeers infoHash => infoHash
  | .announcePeer infoHash => infoHash

/-- The question of `LookupTorrent`, with the answer once it was given. -/
structure DhtQuestion (H : Type) where
  infoHash : H
  actor : ℕ
  answer : Option (Except String (Option (Info H)))

structure DhtSystem (H : Type) where
  /-- The torrent actors that were spawned. -/
  actors : List (TorrentParty H)
  /-- The map of the engine. -/
  managed : HashMap H ℕ
  mailbox : List (DhtMessage H)
  torrents : HashMap H DhtTorrent
  /-- The tasks that run. -/
  tasks : HashMap ℕ (DhtTask H)
  nextTask : ℕ
  lookupTasks : HashMap H ℕ
  announceTasks : HashMap H ℕ
  /-- The routing table has nodes to ask. -/
  seeds : Bool
  bootstrapping : Bool
  asking : Option (DhtQuestion H)

inductive DhtEvent (H : Type)
  /-- The engine creates a torrent from a file or a link; the port, if it is known. -/
  | add (metainfo : MetaInfo H) (port : Option ℕ)
  /-- The engine creates a torrent from a snapshot. -/
  | restore (snapshot : TorrentSnapshot H) (port : Option ℕ)
  /-- The engine removes a torrent, or discards it. -/
  | remove (infoHash : H)
  /-- The metadata of a torrent arrives. -/
  | resolve (actor : ℕ) (info : Info H)
  | stop (actor : ℕ)
  /-- Datagrams fill or empty the routing table. -/
  | route (seeds : Bool)
  | bootstrapped
  /-- A task is done: a lookup with its result, or a timer. -/
  | finish (task : ℕ) (result : LookupResult)
  /-- The DHT actor handles its next message. -/
  | handle
  /-- The torrent answers the question of the DHT actor. -/
  | answer
  /-- The DHT actor goes on with the answer. -/
  | resume

variable [DecidableEq H]

namespace DhtSystem

def init (bootstrapping : Bool) : DhtSystem H :=
  { actors := []
    managed := ∅
    mailbox := []
    torrents := ∅
    tasks := ∅
    nextTask := 0
    lookupTasks := ∅
    announceTasks := ∅
    seeds := false
    bootstrapping
    asking := none }

/-- The engine's torrent of this hash has its metadata, and it is private. -/
def PrivateKnown (s : DhtSystem H) (infoHash : H) : Prop :=
  ∃ actor t, s.managed.get? infoHash = some actor ∧ s.actors[actor]? = some t ∧ t.KnownPrivate

/-! ### The DHT actor -/

/-- Abort the task of a table for a hash, if there is one. -/
def abort (s : DhtSystem H) (table : HashMap H ℕ) (infoHash : H) : HashMap ℕ (DhtTask H) :=
  match table.get? infoHash with
  | none => s.tasks
  | some task => s.tasks.erase task

/-- Spawn a task whose handle goes to the table of lookups. -/
def spawnLookup (s : DhtSystem H) (task : DhtTask H) (infoHash : H) : DhtSystem H :=
  { s with
    tasks := s.tasks.insert s.nextTask task
    nextTask := s.nextTask + 1
    lookupTasks := s.lookupTasks.insert infoHash s.nextTask }

def scheduleLookup (s : DhtSystem H) (infoHash : H) : DhtSystem H :=
  s.spawnLookup (.timer infoHash) infoHash

def startLookup (s : DhtSystem H) (infoHash : H) : DhtSystem H × List (DhtTraffic H) :=
  if s.torrents.contains infoHash then
    let s' := { s with
      tasks := s.abort s.lookupTasks infoHash
      lookupTasks := s.lookupTasks.erase infoHash }
    if s.seeds then (s'.spawnLookup (.lookup infoHash) infoHash, [.getPeers infoHash])
    else (s'.scheduleLookup infoHash, [])
  else (s, [])

def removeTorrentRegistration (s : DhtSystem H) (infoHash : H) : DhtSystem H :=
  let s' := { s with
    torrents := s.torrents.erase infoHash
    tasks := s.abort s.lookupTasks infoHash
    lookupTasks := s.lookupTasks.erase infoHash }
  { s' with
    tasks := s'.abort s'.announceTasks infoHash
    announceTasks := s'.announceTasks.erase infoHash }

def registerTorrent (s : DhtSystem H) (infoHash : H) (actor port : ℕ) :
    DhtSystem H × List (DhtTraffic H) :=
  { s with torrents := s.torrents.insert infoHash ⟨actor, port⟩ }.startLookup infoHash

/-- `LookupTorrent`, as far as the question. -/
def lookupTorrent (s : DhtSystem H) (infoHash : H) : DhtSystem H :=
  match s.torrents.get? infoHash with
  | none => s
  | some torrent => { s with asking := some ⟨infoHash, torrent.actor, none⟩ }

/-- `LookupTorrent`, from the answer on. -/
def lookupAnswered (s : DhtSystem H) (infoHash : H) :
    Except String (Option (Info H)) → DhtSystem H × List (DhtTraffic H)
  | .ok (some info) =>
      if info.isPrivate.getD false then (s.removeTorrentRegistration infoHash, [])
      else s.startLookup infoHash
  | .ok none => s.startLookup infoHash
  | .error _ => (s.removeTorrentRegistration infoHash, [])

/-- The loop over the hashes that are registered. -/
def refreshAll (s : DhtSystem H) : List H → DhtSystem H × List (DhtTraffic H)
  | [] => (s, [])
  | infoHash :: infoHashes =>
      let (s', started) := s.startLookup infoHash
      let (s'', later) := s'.refreshAll infoHashes
      (s'', started ++ later)

def refreshTorrents (s : DhtSystem H) : DhtSystem H × List (DhtTraffic H) :=
  s.refreshAll (s.torrents.toList.map Prod.fst)

/-- A message to a torrent actor can be sent while the actor runs. -/
def alive (s : DhtSystem H) (actor : ℕ) : Bool := (s.actors[actor]?.map TorrentParty.alive).getD false

def lookupFinished (s : DhtSystem H) (infoHash : H) (result : LookupResult) :
    DhtSystem H × List (DhtTraffic H) :=
  let s := { s with lookupTasks := s.lookupTasks.erase infoHash }
  match s.torrents.get? infoHash with
  | none => (s, [])
  | some torrent =>
      if !result.peers.isEmpty && !s.alive torrent.actor then
        ({ s with torrents := s.torrents.erase infoHash }, [])
      else
        let s := { s with tasks := s.abort s.announceTasks infoHash }
        let s := { s with
          tasks := s.tasks.insert s.nextTask (.announce infoHash)
          nextTask := s.nextTask + 1
          announceTasks := s.announceTasks.insert infoHash s.nextTask }
        (s.scheduleLookup infoHash, [.announcePeer infoHash])

def handleMessage (s : DhtSystem H) : DhtMessage H → DhtSystem H × List (DhtTraffic H)
  | .registerTorrent infoHash actor port => s.registerTorrent infoHash actor port
  | .unregisterTorrent infoHash => (s.removeTorrentRegistration infoHash, [])
  | .lookupTorrent infoHash => (s.lookupTorrent infoHash, [])
  | .refreshTorrents => s.refreshTorrents
  | .lookupFinished infoHash result => s.lookupFinished infoHash result

/-! ### The engine, the torrents and the tasks -/

/-- `create_torrent`: the torrent is put into the map, and registered unless its source is private. -/
def createTorrent (c : Codec H) (s : DhtSystem H) (metainfo : MetaInfo H)
    (resolvedMagnetInfo : Option (Info H)) (port : Option ℕ) : DhtSystem H :=
  match metainfo.infoHash c with
  | none => s
  | some infoHash =>
      if s.managed.contains infoHash then s
      else
        let actor := s.actors.length
        { s with
          actors := s.actors ++ [⟨infoHash, metainfo, resolvedMagnetInfo, true⟩]
          managed := s.managed.insert infoHash actor
          mailbox := s.mailbox ++
            match port with
            | some port => if metainfo.isPrivate then [] else [.registerTorrent infoHash actor port]
            | none => [] }

/-- The metadata of a magnet link arrives: it has the hash of the link, and there was none before. -/
def resolveInfo (c : Codec H) (t : TorrentParty H) (info : Info H) : TorrentParty H :=
  if t.alive && t.infoDict.isNone && info.hash c = t.infoHash then
    { t with resolvedMagnetInfo := some info }
  else t

/-- The message of a task that is done. -/
def taskMessage (result : LookupResult) : DhtTask H → List (DhtMessage H)
  | .lookup infoHash => [.lookupFinished infoHash result]
  | .timer infoHash => [.lookupTorrent infoHash]
  | .announce _ => []

def finishTask (s : DhtSystem H) (task : ℕ) (result : LookupResult) : DhtSystem H :=
  match s.tasks.get? task with
  | none => s
  | some done =>
      { s with
        tasks := s.tasks.erase task
        mailbox := s.mailbox ++ taskMessage result done }

/-- What the torrent answers when it is asked for its metadata. -/
def reply (s : DhtSystem H) (actor : ℕ) : Except String (Option (Info H)) :=
  match s.actors[actor]? with
  | some t => if t.alive then .ok t.infoDict else .error "actor not running"
  | none => .error "actor not running"

/-- One step, with the traffic that it starts. -/
def step (c : Codec H) (s : DhtSystem H) : DhtEvent H → DhtSystem H × List (DhtTraffic H)
  | .add metainfo port => (s.createTorrent c metainfo none port, [])
  | .restore snapshot port =>
      match snapshot.validate c with
      | .error _ => (s, [])
      | .ok () => (s.createTorrent c snapshot.metainfo snapshot.resolvedMagnetInfo port, [])
  | .remove infoHash =>
      if s.managed.contains infoHash then
        ({ s with
          managed := s.managed.erase infoHash
          mailbox := s.mailbox ++ [.unregisterTorrent infoHash] }, [])
      else (s, [])
  | .resolve actor info =>
      ({ s with actors := s.actors.modify actor fun t => resolveInfo c t info }, [])
  | .stop actor => ({ s with actors := s.actors.modify actor fun t => { t with alive := false } }, [])
  | .route seeds => ({ s with seeds }, [])
  | .bootstrapped =>
      if s.bootstrapping then
        ({ s with bootstrapping := false, mailbox := s.mailbox ++ [.refreshTorrents] }, [])
      else (s, [])
  | .finish task result => (s.finishTask task result, [])
  | .handle =>
      match s.asking, s.mailbox with
      | none, message :: mailbox => { s with mailbox }.handleMessage message
      | _, _ => (s, [])
  | .answer =>
      match s.asking with
      | some ⟨infoHash, actor, none⟩ =>
          ({ s with asking := some ⟨infoHash, actor, some (s.reply actor)⟩ }, [])
      | _ => (s, [])
  | .resume =>
      match s.asking with
      | some ⟨infoHash, _, some answer⟩ => { s with asking := none }.lookupAnswered infoHash answer
      | _ => (s, [])

def next (c : Codec H) (s : DhtSystem H) (event : DhtEvent H) : DhtSystem H := (s.step c event).1

/-! ### What exposes a private torrent -/

/-- The step starts no lookup and no announcement for a torrent that is known to be private. -/
def StaysOff (c : Codec H) (s : DhtSystem H) (event : DhtEvent H) : Prop :=
  ∀ traffic ∈ (s.step c event).2, ¬ s.PrivateKnown traffic.infoHash

/-- The DHT actor does not handle this message while it starts traffic for a torrent that is known to
be private: no registration and no refresh of such a torrent with nodes to ask, and no finished lookup
of one that is registered. -/
def MessageSpares (s : DhtSystem H) : DhtMessage H → Prop
  | .registerTorrent infoHash _ _ => s.seeds = true → ¬ s.PrivateKnown infoHash
  | .refreshTorrents =>
      s.seeds = true → ∀ infoHash, s.torrents.contains infoHash = true → ¬ s.PrivateKnown infoHash
  | .lookupFinished infoHash result =>
      ∀ torrent, s.torrents.get? infoHash = some torrent →
        (result.peers = [] ∨ s.alive torrent.actor = true) → ¬ s.PrivateKnown infoHash
  | .unregisterTorrent _ => True
  | .lookupTorrent _ => True

/-- The answer lets a lookup begin. -/
def Allows : Except String (Option (Info H)) → Prop
  | .ok (some info) => info.isPrivate ≠ some true
  | .ok none => True
  | .error _ => False

/-- The step exposes no private torrent: it handles no message that does, and does not go on with an
answer from before the metadata arrived. -/
def Spares (s : DhtSystem H) : DhtEvent H → Prop
  | .handle =>
      s.asking = none → ∀ message, s.mailbox.head? = some message → s.MessageSpares message
  | .resume =>
      ∀ infoHash actor answer, s.asking = some ⟨infoHash, actor, some answer⟩ → Allows answer →
        s.seeds = true → ¬ s.PrivateKnown infoHash
  | _ => True

variable {s s' s'' : DhtSystem H} {c : Codec H}

/-! ### What the DHT actor leaves alone -/

/-- A section of the DHT actor: the engine, the torrents and the mailbox are not touched, and no
torrent becomes registered. -/
structure Keeps (s s' : DhtSystem H) : Prop where
  actors : s'.actors = s.actors
  managed : s'.managed = s.managed
  mailbox : s'.mailbox = s.mailbox
  asking : s'.asking = s.asking
  seeds : s'.seeds = s.seeds
  torrents : ∀ h t, s'.torrents.get? h = some t → s.torrents.get? h = some t

theorem Keeps.refl (s : DhtSystem H) : s.Keeps s := ⟨rfl, rfl, rfl, rfl, rfl, fun _ _ h => h⟩

theorem Keeps.trans (h : s.Keeps s') (h' : s'.Keeps s'') : s.Keeps s'' :=
  ⟨h'.actors.trans h.actors, h'.managed.trans h.managed, h'.mailbox.trans h.mailbox,
    h'.asking.trans h.asking, h'.seeds.trans h.seeds,
    fun hash t ht => h.torrents hash t (h'.torrents hash t ht)⟩

theorem startLookup_keeps (s : DhtSystem H) (infoHash : H) : s.Keeps (s.startLookup infoHash).1 := by
  unfold startLookup
  split
  · dsimp only
    split <;> exact ⟨rfl, rfl, rfl, rfl, rfl, fun _ _ h => h⟩
  · exact Keeps.refl s

theorem startLookup_torrents (s : DhtSystem H) (infoHash : H) :
    (s.startLookup infoHash).1.torrents = s.torrents := by
  unfold startLookup
  split
  · dsimp only
    split <;> rfl
  · rfl

/-- A lookup is started for a torrent that is registered, when there are nodes to ask. -/
theorem mem_startLookup_traffic (s : DhtSystem H) (infoHash : H) (traffic : DhtTraffic H) :
    traffic ∈ (s.startLookup infoHash).2 ↔ traffic = .getPeers infoHash ∧
      s.torrents.contains infoHash = true ∧ s.seeds = true := by
  unfold startLookup
  by_cases hregistered : s.torrents.contains infoHash = true
  · cases hseeds : s.seeds <;> simp [hregistered]
  · simp [hregistered]

theorem removeTorrentRegistration_keeps (s : DhtSystem H) (infoHash : H) :
    s.Keeps (s.removeTorrentRegistration infoHash) :=
  ⟨rfl, rfl, rfl, rfl, rfl, fun _ _ h => (HashMap.get?_of_get?_erase h).2⟩

theorem refreshAll_keeps (s : DhtSystem H) (infoHashes : List H) :
    s.Keeps (s.refreshAll infoHashes).1 := by
  induction infoHashes generalizing s with
  | nil => exact Keeps.refl s
  | cons infoHash infoHashes ih => exact (startLookup_keeps s infoHash).trans (ih _)

/-- The loop starts a lookup for each torrent that is registered, when there are nodes to ask. -/
theorem mem_refreshAll_traffic (s : DhtSystem H) (infoHashes : List H) (traffic : DhtTraffic H) :
    traffic ∈ (s.refreshAll infoHashes).2 ↔ s.seeds = true ∧
      ∃ infoHash ∈ infoHashes, s.torrents.contains infoHash = true ∧
        traffic = .getPeers infoHash := by
  induction infoHashes generalizing s with
  | nil => simp [refreshAll]
  | cons infoHash infoHashes ih =>
      have hlater := ih (s.startLookup infoHash).1
      rw [startLookup_torrents, (startLookup_keeps s infoHash).seeds] at hlater
      have hsplit : (s.refreshAll (infoHash :: infoHashes)).2 =
          (s.startLookup infoHash).2 ++ ((s.startLookup infoHash).1.refreshAll infoHashes).2 := rfl
      rw [hsplit, List.mem_append, hlater, mem_startLookup_traffic]
      constructor
      · rintro (⟨rfl, hregistered, hseeds⟩ | ⟨hseeds, h, hmem, hrest⟩)
        · exact ⟨hseeds, infoHash, List.mem_cons_self, hregistered, rfl⟩
        · exact ⟨hseeds, h, List.mem_cons_of_mem _ hmem, hrest⟩
      · rintro ⟨hseeds, h, hmem, hregistered, rfl⟩
        rcases List.mem_cons.1 hmem with rfl | hmem
        · exact .inl ⟨rfl, hregistered, hseeds⟩
        · exact .inr ⟨hseeds, h, hmem, hregistered, rfl⟩

theorem lookupFinished_keeps (s : DhtSystem H) (infoHash : H) (result : LookupResult) :
    s.Keeps (s.lookupFinished infoHash result).1 := by
  unfold lookupFinished
  dsimp only
  split
  · exact ⟨rfl, rfl, rfl, rfl, rfl, fun _ _ h => h⟩
  · split
    · exact ⟨rfl, rfl, rfl, rfl, rfl, fun _ _ h => (HashMap.get?_of_get?_erase h).2⟩
    · exact ⟨rfl, rfl, rfl, rfl, rfl, fun _ _ h => h⟩

/-- A finished lookup is announced for a torrent that is registered, unless its peers could not be
passed on. -/
theorem mem_lookupFinished_traffic (s : DhtSystem H) (infoHash : H) (result : LookupResult)
    (traffic : DhtTraffic H) :
    traffic ∈ (s.lookupFinished infoHash result).2 ↔ traffic = .announcePeer infoHash ∧
      ∃ torrent, s.torrents.get? infoHash = some torrent ∧
        (result.peers = [] ∨ s.alive torrent.actor = true) := by
  unfold lookupFinished
  dsimp only
  cases hget : s.torrents.get? infoHash with
  | none => simp
  | some torrent =>
      by_cases hpeers : result.peers = []
      · simp [hpeers]
      · cases halive : s.alive torrent.actor with
        | true =>
            simp only [alive] at halive
            simp [hpeers, alive, halive]
        | false =>
            simp only [alive] at halive
            simp [hpeers, alive, halive]

theorem lookupAnswered_keeps (s : DhtSystem H) (infoHash : H)
    (answer : Except String (Option (Info H))) : s.Keeps (s.lookupAnswered infoHash answer).1 := by
  unfold lookupAnswered
  split
  · split
    · exact removeTorrentRegistration_keeps s infoHash
    · exact startLookup_keeps s infoHash
  · exact startLookup_keeps s infoHash
  · exact removeTorrentRegistration_keeps s infoHash

/-- The DHT goes on with a lookup when the answer allows it. -/
theorem mem_lookupAnswered_traffic (s : DhtSystem H) (infoHash : H)
    (answer : Except String (Option (Info H))) (traffic : DhtTraffic H) :
    traffic ∈ (s.lookupAnswered infoHash answer).2 ↔ traffic = .getPeers infoHash ∧ Allows answer ∧
      s.torrents.contains infoHash = true ∧ s.seeds = true := by
  cases answer with
  | error e => simp [lookupAnswered, Allows]
  | ok info =>
      cases info with
      | none => simp [lookupAnswered, Allows, mem_startLookup_traffic]
      | some info =>
          by_cases hprivate : info.isPrivate = some true
          · simp [lookupAnswered, Allows, hprivate]
          · have hpublic : info.isPrivate.getD false = false := by
              rcases h : info.isPrivate with _ | b
              · rfl
              · cases b <;> simp_all
            simp [lookupAnswered, Allows, hpublic, hprivate, mem_startLookup_traffic]

/-! ### Runs -/

/-- The actor was created for this hash from a source that is not private. -/
def Public (s : DhtSystem H) (infoHash : H) (actor : ℕ) : Prop :=
  ∃ t, s.actors[actor]? = some t ∧ t.infoHash = infoHash ∧ t.metainfo.isPrivate = false

/-- What every run keeps: the torrents that are registered, or are going to be, are not private by
their source, and the torrent that the DHT actor asks about is registered. -/
structure Inv (s : DhtSystem H) : Prop where
  registered : ∀ h t, s.torrents.get? h = some t → s.Public h t.actor
  waiting : ∀ h actor port, .registerTorrent h actor port ∈ s.mailbox → s.Public h actor
  asking : ∀ q, s.asking = some q → s.torrents.contains q.infoHash = true

theorem inv_init (bootstrapping : Bool) : (init bootstrapping : DhtSystem H).Inv where
  registered := by
    intro h t ht
    cases ht
  waiting := by simp [init]
  asking := by simp [init]

/-- A section of the DHT actor that asks nothing. -/
theorem Inv.keeps (hi : s.Inv) (hk : s.Keeps s') (hnone : s.asking = none) : s'.Inv where
  registered := fun h t ht => by
    obtain ⟨party, hparty, hrest⟩ := hi.registered h t (hk.torrents h t ht)
    exact ⟨party, by rw [hk.actors, hparty], hrest⟩
  waiting := fun h actor port hmem => by
    rw [hk.mailbox] at hmem
    obtain ⟨party, hparty, hrest⟩ := hi.waiting h actor port hmem
    exact ⟨party, by rw [hk.actors, hparty], hrest⟩
  asking := fun q hq => by
    rw [hk.asking, hnone] at hq
    cases hq

/-- A step of the others: the actors keep their sources, the mailbox gets no registration that is
private, and the DHT actor is not touched. -/
theorem Inv.others (hi : s.Inv) (htorrents : s'.torrents = s.torrents)
    (hasking : ∀ q, s'.asking = some q → s.asking.map DhtQuestion.infoHash = some q.infoHash)
    (hpublic : ∀ h actor, s.Public h actor → s'.Public h actor)
    (hmailbox : ∀ h actor port, .registerTorrent h actor port ∈ s'.mailbox →
      .registerTorrent h actor port ∈ s.mailbox ∨ s'.Public h actor) : s'.Inv where
  registered := fun h t ht => hpublic h _ (hi.registered h t (by rwa [htorrents] at ht))
  waiting := fun h actor port hmem => by
    rcases hmailbox h actor port hmem with hold | hnew
    · exact hpublic h actor (hi.waiting h actor port hold)
    · exact hnew
  asking := fun q hq => by
    obtain ⟨old, hold, heq⟩ := Option.map_eq_some_iff.1 (hasking q hq)
    rw [htorrents, ← heq]
    exact hi.asking old hold

omit [DecidableEq H] in
/-- The sources of the actors do not change. -/
theorem Public.modify {infoHash : H} {actor i : ℕ} {f : TorrentParty H → TorrentParty H}
    (hf : ∀ t, (f t).infoHash = t.infoHash ∧ (f t).metainfo = t.metainfo)
    (h : s.Public infoHash actor) :
    Public { s with actors := s.actors.modify i f } infoHash actor := by
  obtain ⟨t, ht, hhash, hpublic⟩ := h
  by_cases hi : i = actor
  · refine ⟨f t, ?_, (hf t).1.trans hhash, ?_⟩
    · simp [hi, ht]
    · rw [(hf t).2, hpublic]
  · exact ⟨t, by simp [hi, ht], hhash, hpublic⟩

theorem Inv.createTorrent (hi : s.Inv) (metainfo : MetaInfo H) (resolved : Option (Info H))
    (port : Option ℕ) : (s.createTorrent c metainfo resolved port).Inv := by
  unfold DhtSystem.createTorrent
  split
  · exact hi
  · rename_i infoHash _
    split
    · exact hi
    · have hnew : ∀ (extra : List (DhtMessage H)) managed,
          (∀ h actor port, .registerTorrent h actor port ∈ extra →
            h = infoHash ∧ actor = s.actors.length ∧ metainfo.isPrivate = false) →
          Inv { s with
            actors := s.actors ++ [⟨infoHash, metainfo, resolved, true⟩]
            managed := managed
            mailbox := s.mailbox ++ extra } := by
        intro extra managed hextra
        refine hi.others rfl (fun q hq => by rw [hq]; rfl) ?_ ?_
        · rintro h actor ⟨t, ht, hrest⟩
          refine ⟨t, ?_, hrest⟩
          rw [List.getElem?_append_left (List.getElem?_eq_some_iff.1 ht).1, ht]
        · intro h actor port hmem
          rcases List.mem_append.1 hmem with hold | hmem
          · exact .inl hold
          · obtain ⟨rfl, rfl, hpublic⟩ := hextra h actor port hmem
            exact .inr ⟨⟨h, metainfo, resolved, true⟩, by simp, rfl, hpublic⟩
      cases port with
      | none => exact hnew [] _ (by simp)
      | some port =>
          cases hprivate : metainfo.isPrivate with
          | true => exact hnew [] _ (by simp)
          | false =>
              refine hnew [.registerTorrent infoHash s.actors.length port] _ ?_
              intro h actor port' hmem
              cases List.mem_singleton.1 hmem
              exact ⟨rfl, rfl, hprivate⟩

/-- A message is taken out of the mailbox. -/
theorem Inv.take {message : DhtMessage H} {mailbox : List (DhtMessage H)} (hi : s.Inv)
    (hmailbox : s.mailbox = message :: mailbox) : Inv { s with mailbox } := by
  refine hi.others rfl (fun q hq => by rw [hq]; rfl) (fun _ _ h => h) ?_
  intro h actor port hmem
  rw [hmailbox]
  exact .inl (List.mem_cons_of_mem _ hmem)

theorem Inv.handleMessage (hi : s.Inv) (hnone : s.asking = none) (message : DhtMessage H)
    (hpublic : ∀ h actor port, message = .registerTorrent h actor port → s.Public h actor) :
    (s.handleMessage message).1.Inv := by
  cases message with
  | registerTorrent infoHash actor port =>
      have hinsert : Inv { s with torrents := s.torrents.insert infoHash ⟨actor, port⟩ } := by
        refine ⟨?_, hi.waiting, ?_⟩
        · intro h t ht
          by_cases heq : h = infoHash
          · subst heq
            cases (HashMap.get?_insert_self _ _ _).symm.trans ht
            exact hpublic h actor port rfl
          · rw [HashMap.get?_insert_of_ne heq] at ht
            exact hi.registered h t ht
        · intro q hq
          rw [hnone] at hq
          cases hq
      exact hinsert.keeps (startLookup_keeps _ infoHash) hnone
  | unregisterTorrent infoHash => exact hi.keeps (removeTorrentRegistration_keeps s infoHash) hnone
  | lookupTorrent infoHash =>
      simp only [DhtSystem.handleMessage, lookupTorrent]
      split
      · exact hi
      · rename_i torrent hget
        refine ⟨hi.registered, hi.waiting, ?_⟩
        intro q hq
        cases hq
        rw [HashMap.contains, hget]
        rfl
  | refreshTorrents => exact hi.keeps (refreshAll_keeps s _) hnone
  | lookupFinished infoHash result => exact hi.keeps (lookupFinished_keeps s infoHash result) hnone

/-- **What every step keeps.** -/
theorem Inv.next (hi : s.Inv) (event : DhtEvent H) : (s.next c event).Inv := by
  have hsame : ∀ q, s.asking = some q → s.asking.map DhtQuestion.infoHash = some q.infoHash := by
    intro q hq
    rw [hq]
    rfl
  -- only a creation puts a registration into the mailbox
  have hfound : ∀ (extra : List (DhtMessage H)),
      (∀ h actor port, .registerTorrent h actor port ∉ extra) →
      ∀ h actor port, .registerTorrent h actor port ∈ s.mailbox ++ extra →
        .registerTorrent h actor port ∈ s.mailbox := by
    intro extra hextra h actor port hmem
    exact (List.mem_append.1 hmem).resolve_right (hextra h actor port)
  cases event with
  | add metainfo port => exact hi.createTorrent metainfo none port
  | restore snapshot port =>
      simp only [DhtSystem.next, step]
      split
      · exact hi
      · exact hi.createTorrent _ _ _
  | remove infoHash =>
      simp only [DhtSystem.next, step]
      split
      · exact hi.others rfl hsame (fun _ _ h => h)
          fun h actor port hmem => .inl (hfound _ (by simp) h actor port hmem)
      · exact hi
  | resolve actor info =>
      refine hi.others rfl hsame (fun h a hp => hp.modify ?_) fun _ _ _ hmem => .inl hmem
      intro t
      unfold resolveInfo
      split <;> exact ⟨rfl, rfl⟩
  | stop actor =>
      exact hi.others rfl hsame (fun h a hp => hp.modify fun _ => ⟨rfl, rfl⟩)
        fun _ _ _ hmem => .inl hmem
  | route seeds => exact hi.others rfl hsame (fun _ _ h => h) fun _ _ _ hmem => .inl hmem
  | bootstrapped =>
      simp only [DhtSystem.next, step]
      split
      · exact hi.others rfl hsame (fun _ _ h => h)
          fun h actor port hmem => .inl (hfound _ (by simp) h actor port hmem)
      · exact hi
  | finish task result =>
      simp only [DhtSystem.next, step, finishTask]
      split
      · exact hi
      · rename_i done _
        refine hi.others rfl hsame (fun _ _ h => h)
          fun h actor port hmem => .inl (hfound _ ?_ h actor port hmem)
        cases done <;> simp [taskMessage]
  | handle =>
      simp only [DhtSystem.next, step]
      split
      · rename_i message mailbox hnone hmailbox
        refine (hi.take hmailbox).handleMessage hnone message ?_
        rintro h actor port rfl
        exact hi.waiting h actor port (by rw [hmailbox]; exact List.mem_cons_self)
      · exact hi
  | answer =>
      simp only [DhtSystem.next, step]
      split
      · rename_i infoHash actor hasking
        refine hi.others rfl ?_ (fun _ _ h => h) fun _ _ _ hmem => .inl hmem
        intro q hq
        cases hq
        rw [hasking]
        rfl
      · exact hi
  | resume =>
      simp only [DhtSystem.next, step]
      split
      · have hclear : Inv { s with asking := none } :=
          ⟨hi.registered, hi.waiting, fun q hq => by cases hq⟩
        exact hclear.keeps (lookupAnswered_keeps _ _ _) rfl
      · exact hi

/-- **What one message exposes.** -/
theorem handleMessage_spares_iff (message : DhtMessage H) :
    (∀ traffic ∈ (s.handleMessage message).2, ¬ s.PrivateKnown traffic.infoHash) ↔
      s.MessageSpares message := by
  cases message with
  | registerTorrent infoHash actor port =>
      simp only [handleMessage, registerTorrent, mem_startLookup_traffic, MessageSpares]
      constructor
      · intro h hseeds
        exact h _ ⟨rfl, by simp [HashMap.contains], hseeds⟩
      · rintro h traffic ⟨rfl, -, hseeds⟩
        exact h hseeds
  | unregisterTorrent infoHash => simp [handleMessage, MessageSpares]
  | lookupTorrent infoHash => simp [handleMessage, MessageSpares]
  | refreshTorrents =>
      simp only [handleMessage, refreshTorrents, mem_refreshAll_traffic, MessageSpares]
      constructor
      · intro h hseeds infoHash hregistered
        obtain ⟨torrent, hget⟩ := Option.isSome_iff_exists.1 hregistered
        have hkey : infoHash ∈ s.torrents.toList.map Prod.fst :=
          List.mem_map.2 ⟨(infoHash, torrent), HashMap.mem_toList_iff.2 hget, rfl⟩
        exact h _ ⟨hseeds, infoHash, hkey, hregistered, rfl⟩
      · rintro h traffic ⟨hseeds, infoHash, -, hregistered, rfl⟩
        exact h hseeds infoHash hregistered
  | lookupFinished infoHash result =>
      simp only [handleMessage, mem_lookupFinished_traffic, MessageSpares]
      constructor
      · intro h torrent hget hsent
        exact h _ ⟨rfl, torrent, hget, hsent⟩
      · rintro h traffic ⟨rfl, torrent, hget, hsent⟩
        exact h torrent hget hsent

/-- **What one step exposes.** -/
theorem staysOff_iff (hi : s.Inv) (event : DhtEvent H) : s.StaysOff c event ↔ s.Spares event := by
  unfold StaysOff
  cases event with
  | add metainfo port => simp [step, Spares]
  | restore snapshot port =>
      simp only [step, Spares, iff_true]
      split <;> simp
  | remove infoHash =>
      simp only [step, Spares, iff_true]
      split <;> simp
  | resolve actor info => simp [step, Spares]
  | stop actor => simp [step, Spares]
  | route seeds => simp [step, Spares]
  | bootstrapped =>
      simp only [step, Spares, iff_true]
      split <;> simp
  | finish task result => simp [step, Spares]
  | handle =>
      simp only [step, Spares]
      split
      · rename_i message mailbox hnone hmailbox
        -- taking the message out changes nothing that the message reads
        refine (handleMessage_spares_iff (s := { s with mailbox }) message).trans ?_
        simp only [hnone, hmailbox, List.head?_cons, Option.some.injEq, forall_eq', true_implies]
        cases message <;> exact Iff.rfl
      · rename_i hcase
        simp only [List.not_mem_nil, false_implies, implies_true, true_iff]
        intro hnone message hhead
        obtain ⟨mailbox, hmailbox⟩ := List.head?_eq_some_iff.1 hhead
        exact absurd hmailbox (hcase message mailbox hnone)
  | answer =>
      simp only [step, Spares, iff_true]
      split <;> simp
  | resume =>
      simp only [step, Spares]
      split
      · rename_i infoHash actor answer hasking
        have hregistered : s.torrents.contains infoHash = true := hi.asking _ hasking
        simp only [mem_lookupAnswered_traffic]
        constructor
        · intro h infoHash' actor' answer' heq hallows hseeds
          cases hasking.symm.trans heq
          exact h _ ⟨rfl, hallows, hregistered, hseeds⟩
        · rintro h traffic ⟨rfl, hallows, -, hseeds⟩
          exact h infoHash actor answer hasking hallows hseeds
      · rename_i hcase
        simp only [List.not_mem_nil, false_implies, implies_true, true_iff]
        intro infoHash actor answer hasking
        exact absurd hasking (hcase infoHash actor answer)

/-- **No torrent is registered whose source is private**, in any run. -/
theorem registered_public (c : Codec H) (bootstrapping : Bool) (events : List (DhtEvent H)) (h : H)
    (t : DhtTorrent) (ht : (events.foldl (next c) (init bootstrapping)).torrents.get? h = some t) :
    (events.foldl (next c) (init bootstrapping)).Public h t.actor := by
  have hinv : ∀ s : DhtSystem H, s.Inv → (events.foldl (next c) s).Inv := by
    clear ht
    induction events with
    | nil => exact fun s hs => hs
    | cons event events ih => exact fun s hs => ih _ (hs.next event)
  exact (hinv _ (inv_init bootstrapping)).registered h t ht

end DhtSystem

/-- **When exactly a run keeps private torrents off the DHT**: when none of its steps handles a
registration, a refresh or a finished lookup of a torrent that is known to be private, or goes on
with an answer from before that was known.  A torrent whose source is a private file is not registered
in any run. -/
theorem private_torrents_off_dht_iff (c : Codec H) (bootstrapping : Bool)
    (events : List (DhtEvent H)) :
    (System.Along (DhtSystem.StaysOff c) (DhtSystem.next c) (DhtSystem.init bootstrapping) events ↔
      System.Along DhtSystem.Spares (DhtSystem.next c) (DhtSystem.init bootstrapping) events) ∧
    ∀ h t, (events.foldl (DhtSystem.next c) (.init bootstrapping)).torrents.get? h = some t →
      (events.foldl (DhtSystem.next c) (.init bootstrapping)).Public h t.actor :=
  ⟨System.along_congr (fun _ event hi => hi.next event)
    (fun _ event hi => DhtSystem.staysOff_iff hi event) events (DhtSystem.inv_init bootstrapping),
    DhtSystem.registered_public c bootstrapping events⟩

/-- The metadata of a private torrent. -/
def Sample.privateInfo : Info Bytes := { Sample.info with isPrivate := some true }

/-- The metadata in bencode, with the key that makes a torrent private. -/
def Sample.privateCodec : Codec Bytes :=
  { Sample.codec with
    toBytes := fun info =>
      (Sample.encode info).dropLast ++
        (if info.isPrivate = some true then ascii "7:privatei1e".toList else []) ++ ascii ['e'] }

/-- A magnet link, saved after its metadata had arrived. -/
def Sample.privateMagnet : TorrentSnapshot Bytes where
  version := torrentSnapshotVersion
  infoHash := Sample.privateInfo.hash Sample.privateCodec
  state := .paused
  autoStart := true
  sufficientPeers := 6
  outputPath := some [['o']]
  metainfo := .magnetUri (some (Sample.privateInfo.hash Sample.privateCodec))
  pieceStorage := .inFile
  resolvedMagnetInfo := some Sample.privateInfo
  bitfield := [false]
  blockMap := []

/-- The engine restores a magnet link whose metadata is private, and the DHT has nodes to ask: it
looks for peers. -/
theorem restored_magnet_looked_up :
    ¬ System.Along (DhtSystem.StaysOff Sample.privateCodec) (DhtSystem.next Sample.privateCodec)
      (DhtSystem.init false) [.route true, .restore Sample.privateMagnet (some 6881), .handle] := by
  rintro ⟨-, -, hhandle, -⟩
  refine hhandle (.getPeers (Sample.privateInfo.hash Sample.privateCodec)) ?_ ?_
  · decide
  · exact ⟨0, ⟨_, _, some Sample.privateInfo, true⟩, rfl, rfl, Sample.privateInfo, rfl, rfl⟩

end Tortillas
