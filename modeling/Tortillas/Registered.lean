/-
**Whom the scheduler knows.**

The scheduler keeps blocks in flight, counts, availability and cursors under the ids of peers.  All
of these should belong to registered peers.  Most handlers see to it: a peer that is dropped is
dropped from the scheduler too.  Two do not.  A message that a peer is ready is noted whether or not
the peer is registered, and a broadcast to all peers drops the dead ones from the table alone.

Main definitions:

* `MentionsRegistered` — every peer the scheduler mentions is registered;
* `Leaks` — the inputs on which the scheduler comes to know an unregistered peer.

Main results:

* `TorrentActor.mentionsRegistered_change` — no change of the swarm breaks it;
* `mentions_registered_iff` — **in every run without such inputs the scheduler mentions registered
  peers only, and each such input breaks it.**
-/

import Tortillas.TorrentChanges
import Tortillas.Completion

set_option relaxedAutoImplicit false
set_option autoImplicit false

namespace Tortillas

/-- Every peer the scheduler mentions is registered. -/
def MentionsRegistered {H : Type} (s : TorrentActor H) : Prop :=
  ∀ p, s.pieceScheduler.Mentions p → s.peers.get? p ≠ none

namespace TorrentActor

variable {H : Type} {s t : TorrentActor H}

theorem Requesting.mentionsRegistered (h : Requesting s t) (hs : MentionsRegistered s) :
    MentionsRegistered t := by
  intro p hp
  rw [h.peers]
  rcases h.mentions p hp with hold | hpeer
  · exact hs p hold
  · exact hpeer

/-! ### Dropping peers -/

/-- The dead peers a broadcast finds are the registered ones that are dead. -/
theorem mem_dead_iff {env : BroadcastEnv} {p : PeerId} :
    p ∈ (s.peers.toList.map Prod.fst).filter env.dead ↔
      s.peers.get? p ≠ none ∧ env.dead p = true := by
  rw [List.mem_filter, List.mem_map]
  refine and_congr_left fun _ => ⟨?_, ?_⟩
  · rintro ⟨⟨q, ref⟩, hmem, rfl⟩
    rw [HashMap.mem_toList_iff.1 hmem]
    exact Option.some_ne_none ref
  · intro hp
    obtain ⟨ref, href⟩ := Option.ne_none_iff_exists'.1 hp
    exact ⟨(p, ref), HashMap.mem_toList_iff.2 href, rfl⟩

theorem mentions_of_foldl_peerDisconnected {dead : List PeerId} {sched : PieceScheduler}
    {p : PeerId} (h : (dead.foldl PieceScheduler.peerDisconnected sched).Mentions p) :
    p ∉ dead ∧ sched.Mentions p := by
  induction dead generalizing sched with
  | nil => exact ⟨List.not_mem_nil, h⟩
  | cons q dead ih =>
      obtain ⟨hnot, hment⟩ := ih h
      obtain ⟨hne, hold⟩ := hment.of_peerDisconnected
      exact ⟨fun hmem => (List.mem_cons.1 hmem).elim hne hnot, hold⟩

/-- **No change of the swarm breaks it.** -/
theorem mentionsRegistered_change {R : ℕ → ℕ → ℕ → Prop} (h : Change R s t)
    (hs : MentionsRegistered s) : MentionsRegistered t := by
  cases h with
  | quiet h =>
      intro p hp
      rw [h.scheduler] at hp
      rw [h.peers]
      exact hs p hp
  | request h => exact h.mentionsRegistered hs
  | available id bits h =>
      intro p hp
      rcases PieceScheduler.Mentions.of_updatePeerAvailability hp with rfl | hold
      · exact h.elim (fun hreg => hreg) fun hknown => hs p (Or.inr (Or.inr (Or.inl hknown)))
      · exact hs p hold
  | remove id =>
      have hdrop : ∀ p, (s.pieceScheduler.peerDisconnected id).Mentions p →
          p ≠ id ∧ s.peers.get? p ≠ none := by
        intro p hp
        obtain ⟨hne, hold⟩ := hp.of_peerDisconnected
        exact ⟨hne, hs p hold⟩
      unfold removePeer
      split
      · intro p hp
        obtain ⟨hne, hreg⟩ := hdrop p hp
        change (s.peers.erase id).get? p ≠ none
        rw [HashMap.get?_erase_of_ne hne]
        exact hreg
      · exact fun p hp => (hdrop p hp).2
  | lose index env =>
      intro p hp
      obtain ⟨hnot, hold⟩ := mentions_of_foldl_peerDisconnected hp
      change (((s.peers.toList.map Prod.fst).filter env.dead).foldl (fun peers id => peers.erase id)
        s.peers).get? p ≠ none
      rw [HashMap.get?_foldl_erase, if_neg hnot]
      exact hs p hold
  | @record index offset length n info p sent ha =>
      have heq := recorded_eq p (s.pieceScheduler.markBlockComplete index (offset / blockSize) n).2
        index offset length n sent s
      intro q hq
      change (s.recorded p index offset length n sent).pieceScheduler.Mentions q at hq
      rw [recorded, heq] at hq ⊢
      exact hs q (PieceScheduler.Mentions.of_markBlockComplete hq)
  | receive h => exact fun p hp => hs p hp
  | complete index => exact fun p hp => hs p hp
  | stop normal => exact fun p hp => hs p hp

theorem Changes.mentionsRegistered {R : ℕ → ℕ → ℕ → Prop} (h : Changes R s t) (hs : MentionsRegistered s) :
    MentionsRegistered t :=
  h.invariant (fun _ _ hc hs => mentionsRegistered_change hc hs) hs

theorem mentionsRegistered_insertPeer (id : Option PeerId) (ref : ActorRef)
    (hs : MentionsRegistered s) : MentionsRegistered (s.insertPeer id ref) := by
  rcases insertPeer_cases id ref s with heq | ⟨q, -, -, heq⟩
  · rw [heq]
    exact hs
  · rw [heq]
    intro p hp
    change (s.peers.insert q ref).get? p ≠ none
    rw [HashMap.get?_insert]
    split
    · exact Option.some_ne_none ref
    · exact hs p hp

/-- A broadcast to all peers keeps it exactly if no peer it finds dead is mentioned. -/
theorem mentionsRegistered_broadcastToPeers_iff (command : PeerCommand) (env : BroadcastEnv)
    (hs : MentionsRegistered s) :
    MentionsRegistered (s.broadcastToPeers command env) ↔
      ¬ ∃ p, s.pieceScheduler.Mentions p ∧ env.dead p = true := by
  have hget : ∀ p, (s.broadcastToPeers command env).peers.get? p =
      if p ∈ (s.peers.toList.map Prod.fst).filter env.dead then none else s.peers.get? p :=
    fun p => HashMap.get?_foldl_erase _ _ p
  refine ⟨?_, ?_⟩
  · rintro h ⟨p, hp, hdead⟩
    refine h p hp ?_
    rw [hget, if_pos (mem_dead_iff.2 ⟨hs p hp, hdead⟩)]
  · intro h p hp
    rw [hget, if_neg fun hmem => h ⟨p, hp, (mem_dead_iff.1 hmem).2⟩]
    exact hs p hp

/-! ### Restoring -/

/-- A restored torrent has nothing in flight. -/
theorem idle_restoredScheduler (n : ℕ) (bits : List Bool) (entries : List PieceBlockSnapshot) :
    (restoredScheduler n bits entries).inFlight = ∅ ∧ (restoredScheduler n bits entries).inFlightPerPeer = ∅ := by
  have hmark : ∀ (bits : List Bool) (i : ℕ) (sched : PieceScheduler),
      (markComplete bits i sched).inFlight = sched.inFlight ∧
      (markComplete bits i sched).inFlightPerPeer = sched.inFlightPerPeer := by
    intro bits
    induction bits with
    | nil => exact fun _ _ => ⟨rfl, rfl⟩
    | cons bit bits ih =>
        intro i sched
        rw [markComplete, (ih _ _).1, (ih _ _).2]
        cases bit with
        | false => exact ⟨rfl, rfl⟩
        | true => exact ⟨rfl, rfl⟩
  have hrows : ∀ (entries : List PieceBlockSnapshot) (sched : PieceScheduler),
      let restored := entries.foldl (fun sched entry => sched.restorePieceBlocks entry.pieceIndex entry.blocks) sched
      restored.inFlight = sched.inFlight ∧ restored.inFlightPerPeer = sched.inFlightPerPeer := by
    intro entries
    induction entries with
    | nil => exact fun _ => ⟨rfl, rfl⟩
    | cons entry entries ih => exact fun sched => ih (sched.restorePieceBlocks entry.pieceIndex entry.blocks)
  obtain ⟨hflight, hcounts⟩ := hrows entries (markComplete bits 0 (PieceScheduler.new n))
  obtain ⟨hflight', hcounts'⟩ := hmark bits 0 (PieceScheduler.new n)
  exact ⟨hflight.trans hflight', hcounts.trans hcounts'⟩

theorem not_mentions_restoredScheduler (n : ℕ) (bits : List Bool)
    (entries : List PieceBlockSnapshot) (p : PeerId) :
    ¬ (restoredScheduler n bits entries).Mentions p := by
  have hmark : ∀ (bits : List Bool) (i : ℕ) (sched : PieceScheduler), ¬ sched.Mentions p →
      ¬ (markComplete bits i sched).Mentions p := by
    intro bits
    induction bits with
    | nil => exact fun _ _ h => h
    | cons bit bits ih =>
        intro i sched h
        refine ih (i + 1) _ ?_
        cases bit with
        | false => exact h
        | true => exact h
  have hrows : ∀ (entries : List PieceBlockSnapshot) (sched : PieceScheduler), ¬ sched.Mentions p →
      ¬ (entries.foldl (fun sched entry => sched.restorePieceBlocks entry.pieceIndex entry.blocks)
        sched).Mentions p := by
    intro entries
    induction entries with
    | nil => exact fun _ h => h
    | cons entry entries ih =>
        exact fun sched h => ih (sched.restorePieceBlocks entry.pieceIndex entry.blocks) h
  exact hrows entries _ (hmark bits 0 _ (PieceScheduler.not_mentions_new n p))

end TorrentActor

/-! ### Runs -/

section Runs

variable {H : Type} [DecidableEq H] {c : Codec H}

/-- A broadcast finds dead a peer that the scheduler mentions. -/
def DropsMentioned (s : TorrentActor H) (env : BroadcastEnv) : Prop :=
  ∃ p, s.pieceScheduler.Mentions p ∧ env.dead p = true

/-- The inputs on which the scheduler comes to know an unregistered peer: one that is not
registered says it is ready, or a resolved dictionary or the pause of an active torrent is told to
all peers and a mentioned one is found dead. -/
def Leaks (s : TorrentActor H) (i : TorrentActor.Input c) : Prop :=
  let s' := s.next i.check
  match i.message with
  | .peerReady id _ _ _ => s'.peers.get? id = none
  | .infoBytes bytes env => s'.infoDict = none ∧ c.sha1 bytes = s'.infoHash ∧
      (c.fromBytes bytes).isSome = true ∧ DropsMentioned s' env
  | .setState .paused _ env => s'.state.isTransferActive = true ∧ DropsMentioned s' env
  | _ => False

namespace TorrentActor

variable {s : TorrentActor H}

omit [DecidableEq H] in
theorem mentionsRegistered_peerReady_iff (id : PeerId) (bits : List Bool) (alive : Bool)
    (env : FillEnv) (hs : MentionsRegistered s) :
    MentionsRegistered (s.peerReady id bits alive env) ↔ s.peers.get? id ≠ none := by
  refine ⟨?_, ?_⟩
  · intro h hnone
    -- An unknown peer is asked for nothing, but its pieces are noted.
    have heq : s.peerReady id bits alive env
        = s.mapScheduler (·.updatePeerAvailability id bits) := by
      unfold peerReady
      simp [HashMap.contains, hnone]
    rw [heq] at h
    refine h id (Or.inr (Or.inr (Or.inl ?_))) hnone
    change (s.pieceScheduler.peerAvailability.insert id bits).get? id ≠ none
    rw [HashMap.get?_insert_self]
    exact Option.some_ne_none bits
  · intro hreg
    have hnoted : Changes (fun _ _ _ => False) s
        (s.mapScheduler (·.updatePeerAvailability id bits)) :=
      .single (.available id bits (Or.inl hreg))
    exact Changes.mentionsRegistered (hnoted.trans (changes_peerReady id bits alive env s)) hs

theorem mentionsRegistered_infoBytes_iff (bytes : Bytes) (env : BroadcastEnv)
    (hs : MentionsRegistered s) :
    MentionsRegistered (s.infoBytes c bytes env) ↔
      ¬ (s.infoDict = none ∧ c.sha1 bytes = s.infoHash ∧ (c.fromBytes bytes).isSome = true ∧
        DropsMentioned s env) := by
  have hresolve : ∀ info, MentionsRegistered (s.resolveMetadata info) := fun _ p hp => hs p hp
  cases hbytes : c.fromBytes bytes with
  | none =>
      rcases infoBytes_cases c bytes env s with heq | ⟨info, -, -, hinfo, -⟩
      · rw [heq]
        refine ⟨?_, fun _ => hs⟩
        rintro - ⟨-, -, hsome, -⟩
        cases hsome
      · cases hbytes.symm.trans hinfo
  | some info =>
      by_cases hcond : s.infoDict = none ∧ c.sha1 bytes = s.infoHash
      · have heq : s.infoBytes c bytes env = (s.resolveMetadata info).broadcastToPeers
            (.haveInfoDict (List.replicate info.pieceCount false)) env := by
          simp [TorrentActor.infoBytes, hcond.1, hcond.2, hbytes]
        rw [heq, mentionsRegistered_broadcastToPeers_iff _ env (hresolve info)]
        refine not_congr ⟨fun h => ⟨hcond.1, hcond.2, rfl, h⟩, fun h => h.2.2.2⟩
      · rcases infoBytes_cases c bytes env s with heq | ⟨-, hnone, hhash, -, -⟩
        · rw [heq]
          exact ⟨fun _ h => hcond ⟨h.1, h.2.1⟩, fun _ => hs⟩
        · exact absurd ⟨hnone, hhash⟩ hcond

omit [DecidableEq H] in
theorem mentionsRegistered_stopTransfer_iff (env : BroadcastEnv) (hs : MentionsRegistered s) :
    MentionsRegistered (s.stopTransfer env) ↔
      ¬ (s.state.isTransferActive = true ∧ DropsMentioned s env) := by
  have hpause : MentionsRegistered (s.transitionState .paused) := fun p hp => hs p hp
  rcases changes_stopTransfer env s with ⟨hactive, heq⟩ | ⟨hidle, hquiet⟩
  · rw [heq, mentionsRegistered_broadcastToPeers_iff _ env hpause]
    exact not_congr ⟨fun h => ⟨hactive, h⟩, fun h => h.2⟩
  · refine ⟨?_, fun _ => ?_⟩
    · rintro - ⟨hactive, -⟩
      cases hidle.symm.trans hactive
    · exact mentionsRegistered_change (R := fun _ _ _ => False) (.quiet hquiet) hs

/-- **One step keeps it exactly if it does not leak.** -/
theorem mentionsRegistered_step_iff (hs : MentionsRegistered s) (i : Input c) :
    MentionsRegistered (s.step i) ↔ ¬ Leaks s i := by
  have hclear : MentionsRegistered { s with outbox := [] } := fun p hp => hs p hp
  have hs' : MentionsRegistered (s.next i.check) :=
    Changes.mentionsRegistered (R := fun _ _ _ => False) (changes_next i.check s) hclear
  have hhandle := changes_handle (c := c) (s.next i.check) (m := i.message)
  unfold TorrentActor.step Leaks
  generalize i.message = m at hhandle
  generalize s.next i.check = s' at hs' hhandle
  cases m with
  | peerConnected id ref =>
      exact ⟨fun _ h => h, fun _ => mentionsRegistered_insertPeer id ref hs'⟩
  | peerReady id bits alive env => exact mentionsRegistered_peerReady_iff id bits alive env hs'
  | infoBytes bytes env => exact mentionsRegistered_infoBytes_iff bytes env hs'
  | setState state start stop =>
      by_cases hpaused : state = .paused
      · subst hpaused
        exact mentionsRegistered_stopTransfer_iff stop hs'
      · have hkept := Changes.mentionsRegistered (R := fun _ _ _ => False)
          (changes_setState start stop s' hpaused) hs'
        cases state with
        | paused => exact absurd rfl hpaused
        | _ => exact ⟨fun _ => id, fun _ => hkept⟩
  | restoreSnapshot v =>
      refine ⟨fun _ => id, fun _ p hp => ?_⟩
      exact absurd hp (not_mentions_restoredScheduler _ _ _ p)
  | _ => exact ⟨fun _ => id, fun _ => Changes.mentionsRegistered (hhandle id) hs'⟩

omit [DecidableEq H] in
theorem mentionsRegistered_onStart {args : Args H} {disk : FileStore Path}
    (h : onStart c args disk = some s) : MentionsRegistered s := by
  unfold onStart at h
  obtain ⟨hash, -, rfl⟩ := Option.map_eq_some_iff.1 h
  exact fun p hp => absurd hp (PieceScheduler.not_mentions_new _ p)

end TorrentActor

/-- **In every run whose inputs do not leak the scheduler mentions registered peers only, and an
input keeps it so exactly if it does not leak.** -/
theorem mentions_registered_iff {s : TorrentActor H}
    (h : (torrentSystem c).Reach (fun s i => ¬ Leaks s i) s) :
    MentionsRegistered s ∧
    ∀ i : TorrentActor.Input c, MentionsRegistered (s.step i) ↔ ¬ Leaks s i := by
  have hs : MentionsRegistered s := by
    refine h.invariant ?_ ?_
    · rintro s ⟨args, disk, hstart⟩
      exact TorrentActor.mentionsRegistered_onStart hstart
    · rintro s i t hs hG ⟨-, rfl⟩
      exact (TorrentActor.mentionsRegistered_step_iff hs i).2 hG
  exact ⟨hs, TorrentActor.mentionsRegistered_step_iff hs⟩

/-- A peer is asked for the only block, and the torrent is paused and tells all peers, none of which is
found dead. -/
def Sample.askingAndPaused : List (TorrentMessage Sample.codec) :=
  Sample.asking ++ [.setState .paused Sample.startEnv Sample.broadcastEnv]

theorem mentions_registered_sample :
    MentionsRegistered (Sample.run (Sample.fromFile .inFile) Sample.askingAndPaused) ∧
      (Sample.run (Sample.fromFile .inFile) Sample.askingAndPaused).pieceScheduler.Mentions Sample.peer := by
  refine ⟨(mentions_registered_iff (Sample.reach_along (.init (Sample.init_fromFile .inFile)) ?_)).1, ?_⟩
  · refine ⟨⟨id, trivial⟩, ⟨id, trivial⟩, ⟨?_, trivial⟩, ⟨?_, trivial⟩, trivial⟩
    · intro hnone
      have hready : ((Sample.run (Sample.fromFile .inFile) (Sample.asking.take 2)).next Sample.startEnv).peers.get?
          Sample.peer = none := hnone
      exact absurd hready (by decide +kernel)
    · rintro ⟨-, p, -, hdead⟩
      cases hdead
  · exact Or.inr (Or.inl (by decide +kernel))

/-- The peer that was asked for a block is found dead when the torrent is paused: the block stays in
flight for it. -/
theorem paused_torrent_mentions_dropped_peer :
    ∃ s, (torrentSystem Sample.codec).Reach (fun _ _ => True) s ∧ ¬ MentionsRegistered s := by
  refine ⟨(Sample.downloading .inFile).step (Sample.input (.setState .paused Sample.startEnv
    ⟨fun _ => false, fun _ => true⟩)), Sample.reach_step (.setState .paused Sample.startEnv
    ⟨fun _ => false, fun _ => true⟩) (Sample.reach_downloading .inFile) trivial trivial, ?_⟩
  intro h
  refine h Sample.peer (Or.inr (Or.inl ?_)) ?_
  · decide +kernel
  · decide +kernel

end Runs

end Tortillas
