/-
**Rounds of the torrent seen from the swarm.**

A handler of the torrent works in small changes, and each of them may send something.  A property
that ties the torrent to its peer actors is therefore carried through a handler change by change:
it is stated of the torrent in the middle of its handler together with the peer actors as they are
once everything sent so far has arrived.

Main definitions:

* `Carries` — what holds in one state of the torrent leads to what holds in another;
* `TorrentActor.Shrinks` — nobody is registered, and peers may be dropped;
* `Processes.Grow` — the same actors in the same phases, with more in their mailboxes;
* `Hosted` — every registered peer has an actor under its id.

Main results:

* `Carries.of_changes`, `Carries.round` — changes, and a round, carry what every change carries;
* `step_cases`, `Swarm.round_cases` — a round registers nobody, or one connection;
* `torrent_of_reach` — the torrent of a swarm runs as a torrent by itself does;
* `hosted_of_reach` — **every registered peer has an actor under its id**.
-/

import Tortillas.Swarm
import Tortillas.TorrentChanges
import Tortillas.Completion

set_option relaxedAutoImplicit false
set_option autoImplicit false

namespace Tortillas

variable {H : Type}

/-! ### Carrying a property through a handler -/

/-- If `I` holds of the torrent and its peer actors in the first state, then `J` holds in the second,
once what has been sent in between has arrived. -/
def Carries (I J : TorrentActor H → Processes → Prop) (s t : TorrentActor H) : Prop :=
  ∃ new, t.outbox = s.outbox ++ new ∧ ∀ ps : Processes, I s ps → J t (ps.postAll new)

namespace Carries

variable {I J K : TorrentActor H → Processes → Prop} {s t u : TorrentActor H}

theorem refl (s : TorrentActor H) : Carries I I s s := ⟨[], (List.append_nil _).symm, fun _ h => h⟩

theorem trans (h₁ : Carries I J s t) (h₂ : Carries J K t u) : Carries I K s u := by
  obtain ⟨new₁, hout₁, hI₁⟩ := h₁
  obtain ⟨new₂, hout₂, hI₂⟩ := h₂
  refine ⟨new₁ ++ new₂, by rw [hout₂, hout₁, List.append_assoc], fun ps h => ?_⟩
  rw [Processes.postAll_append]
  exact hI₂ _ (hI₁ ps h)

/-- Changes carry what every change carries. -/
theorem of_changes {R : ℕ → ℕ → ℕ → Prop}
    (hchange : ∀ s t : TorrentActor H, TorrentActor.Change R s t → Carries I I s t)
    (h : TorrentActor.Changes R s t) : Carries I I s t := by
  induction h with
  | refl => exact refl s
  | tail _ hc ih => exact ih.trans (hchange _ _ hc)

/-- Nothing is sent. -/
theorem silent (hout : t.outbox = s.outbox) (hI : ∀ ps, I s ps → J t ps) : Carries I J s t :=
  ⟨[], by rw [hout, List.append_nil], hI⟩

/-- A round carries what its check and its handler carry. -/
theorem round [DecidableEq H] {c : Codec H} {s : TorrentActor H} {i : TorrentActor.Input c}
    {ps : Processes} (h : Carries I J { s with outbox := [] } (s.step i))
    (hI : I { s with outbox := [] } ps) : J (s.step i) (ps.postAll (s.step i).outbox) := by
  obtain ⟨new, hout, hcarry⟩ := h
  rw [hout]
  exact hcarry ps hI

end Carries

/-! ### What a change sends -/

namespace TorrentActor

/-- A block is noted, and a row before it if there is none. -/
theorem outbox_noteBlock_eq (index offset length : ℕ) (s : TorrentActor H) :
    (s.noteBlock index offset length).outbox =
      s.outbox ++ ((if (s.pieceScheduler.completedBlocks.get? index).isSome then []
        else [.rowCreated index]) ++ [.blockWritten index offset length]) := by
  unfold noteBlock
  split
  · rfl
  · exact List.append_assoc ..

theorem outbox_noteBlock (index offset length : ℕ) (s : TorrentActor H) :
    ∃ new, (s.noteBlock index offset length).outbox = s.outbox ++ new ∧
      ∀ e ∈ new, e = .rowCreated index ∨ e = .blockWritten index offset length := by
  refine ⟨_, outbox_noteBlock_eq index offset length s, ?_⟩
  intro e he
  rcases List.mem_append.1 he with he | he
  · split at he
    · exact absurd he List.not_mem_nil
    · exact Or.inl (List.mem_singleton.1 he)
  · exact Or.inr (List.mem_singleton.1 he)

theorem outbox_cancelAssigned (p : PeerId) (assigned : Option PeerId) (index offset length : ℕ)
    (sent : Bool) (s : TorrentActor H) :
    ∃ new, (s.cancelAssigned p assigned index offset length sent).outbox = s.outbox ++ new ∧
      ∀ e ∈ new, ∃ q ref, assigned = some q ∧ q ≠ p ∧ s.peers.get? q = some ref ∧
        e = .tell ref (.cancelPiece index offset length) := by
  have hnone : ∃ new, s.outbox = s.outbox ++ new ∧ ∀ e ∈ new, ∃ q ref, assigned = some q ∧ q ≠ p ∧
      s.peers.get? q = some ref ∧ e = .tell ref (.cancelPiece index offset length) :=
    ⟨[], (List.append_nil _).symm, fun _ h => absurd h List.not_mem_nil⟩
  unfold cancelAssigned
  cases assigned with
  | none => exact hnone
  | some q =>
      simp only
      split
      · exact hnone
      · rename_i hne
        cases hget : s.peers.get? q with
        | none => exact hnone
        | some ref =>
            simp only
            split
            · refine ⟨[.tell ref (.cancelPiece index offset length)], rfl, ?_⟩
              intro e he
              exact ⟨q, ref, rfl, hne, hget, List.mem_singleton.1 he⟩
            · exact hnone

/-- What is sent when a block has been recorded: its history, and a cancellation to another peer
the block was assigned to. -/
theorem outbox_recorded (p : PeerId) (index offset length n : ℕ) (sent : Bool)
    (s : TorrentActor H) :
    ∃ new, (s.recorded p index offset length n sent).outbox = s.outbox ++ new ∧
      ∀ e ∈ new, e = .rowCreated index ∨ e = .blockWritten index offset length ∨
        ∃ q ref, s.peers.get? q = some ref ∧ e = .tell ref (.cancelPiece index offset length) := by
  obtain ⟨new₁, hout₁, hnew₁⟩ := outbox_noteBlock index offset length s
  obtain ⟨new₂, hout₂, hnew₂⟩ := outbox_cancelAssigned p
    (s.pieceScheduler.markBlockComplete index (offset / blockSize) n).2 index offset length sent
    ((s.noteBlock index offset length).recordBlock index offset n)
  have hpeers : ((s.noteBlock index offset length).recordBlock index offset n).peers = s.peers := by
    rw [noteBlock_eq]
    rfl
  refine ⟨new₁ ++ new₂, ?_, ?_⟩
  · rw [recorded, hout₂]
    change (s.noteBlock index offset length).outbox ++ new₂ = _
    rw [hout₁, List.append_assoc]
  · intro e he
    rcases List.mem_append.1 he with he | he
    · exact (hnew₁ e he).imp_right Or.inl
    · obtain ⟨q, ref, -, -, hget, rfl⟩ := hnew₂ e he
      rw [hpeers] at hget
      exact Or.inr (Or.inr ⟨q, ref, hget, rfl⟩)

/-- The effects of a broadcast are commands to registered peers. -/
theorem mem_told {s : TorrentActor H} {command : PeerCommand} {f : PeerId → Bool} {e : Effect}
    (h : e ∈ s.peers.toList.filterMap fun peer =>
      if f peer.1 then some (Effect.tell peer.2 command) else none) :
    ∃ q ref, s.peers.get? q = some ref ∧ e = .tell ref command := by
  obtain ⟨⟨q, ref⟩, hmem, he⟩ := List.mem_filterMap.1 h
  simp only at he
  split at he
  · cases he
    exact ⟨q, ref, HashMap.mem_toList_iff.1 hmem, rfl⟩
  · cases he

/-- Nobody is registered; peers may be dropped. -/
structure Shrinks (s t : TorrentActor H) : Prop where
  sent : ∃ new, t.outbox = s.outbox ++ new ∧ ∀ ref id, Effect.spawn ref id ∉ new
  peers : ∀ id ref, t.peers.get? id = some ref → s.peers.get? id = some ref

namespace Shrinks

variable {s t u : TorrentActor H}

theorem refl (s : TorrentActor H) : Shrinks s s :=
  ⟨⟨[], (List.append_nil _).symm, fun _ _ => List.not_mem_nil⟩, fun _ _ h => h⟩

theorem trans (h₁ : Shrinks s t) (h₂ : Shrinks t u) : Shrinks s u := by
  obtain ⟨new₁, hout₁, hnew₁⟩ := h₁.sent
  obtain ⟨new₂, hout₂, hnew₂⟩ := h₂.sent
  refine ⟨⟨new₁ ++ new₂, by rw [hout₂, hout₁, List.append_assoc], fun ref id hmem => ?_⟩,
    fun id ref h => h₁.peers id ref (h₂.peers id ref h)⟩
  exact (List.mem_append.1 hmem).elim (hnew₁ ref id) (hnew₂ ref id)

/-- Peers and outbox are untouched. -/
theorem silent (hpeers : t.peers = s.peers) (hout : t.outbox = s.outbox) : Shrinks s t :=
  ⟨⟨[], by rw [hout, List.append_nil], fun _ _ => List.not_mem_nil⟩, fun _ _ h => by rwa [hpeers] at h⟩

theorem requesting (h : Requesting s t) : Shrinks s t := by
  obtain ⟨new, hout, hnew, -⟩ := h.sent
  refine ⟨⟨new, hout, fun ref id hmem => ?_⟩, fun id ref hget => by rwa [h.peers] at hget⟩
  cases hnew _ hmem

theorem removePeer (id : PeerId) (s : TorrentActor H) : Shrinks s (s.removePeer id).1 := by
  unfold TorrentActor.removePeer
  split
  · rename_i ref _
    refine ⟨⟨[.kill ref], rfl, fun ref' id' hmem => ?_⟩, fun id' ref' h => ?_⟩
    · cases List.mem_singleton.1 hmem
    · exact (HashMap.get?_of_get?_erase h).2
  · exact silent rfl rfl

/-- Peers that are found dead are no longer registered. -/
theorem get?_of_get?_dropped {peers : HashMap PeerId ActorRef} {dead : List PeerId} {id : PeerId}
    {ref : ActorRef} (h : (dead.foldl (fun peers id => peers.erase id) peers).get? id = some ref) :
    peers.get? id = some ref := by
  rw [HashMap.get?_foldl_erase] at h
  split at h
  · cases h
  · exact h

theorem broadcastToPeers (command : PeerCommand) (env : BroadcastEnv) (s : TorrentActor H) :
    Shrinks s (s.broadcastToPeers command env) := by
  refine ⟨⟨_, rfl, fun ref id hmem => ?_⟩, fun id ref h => get?_of_get?_dropped h⟩
  obtain ⟨q, ref', -, he⟩ := mem_told hmem
  cases he

theorem broadcastToPeersBestEffort (command : PeerCommand) (env : BroadcastEnv)
    (s : TorrentActor H) : Shrinks s (s.broadcastToPeersBestEffort command env) := by
  refine ⟨⟨_, rfl, fun ref id hmem => ?_⟩, fun id ref h => get?_of_get?_dropped h⟩
  obtain ⟨q, ref', -, he⟩ := mem_told (f := fun id => !env.dead id && env.sent id) hmem
  cases he

theorem recorded (p : PeerId) (index offset length n : ℕ) (sent : Bool) (s : TorrentActor H) :
    Shrinks s (s.recorded p index offset length n sent) := by
  obtain ⟨new, hout, hnew⟩ := outbox_recorded p index offset length n sent s
  refine ⟨⟨new, hout, fun ref id hmem => ?_⟩, fun id ref h => ?_⟩
  · rcases hnew _ hmem with he | he | ⟨q, ref', -, he⟩ <;> cases he
  · have hpeers : (s.recorded p index offset length n sent).peers = s.peers := by
      rw [TorrentActor.recorded, recorded_eq]
      rfl
    rwa [hpeers] at h

theorem of_change {R : ℕ → ℕ → ℕ → Prop} (h : Change R s t) : Shrinks s t := by
  cases h with
  | quiet h => exact silent h.peers h.outbox
  | request h => exact requesting h
  | available id bits _ => exact silent rfl rfl
  | remove id => exact removePeer id s
  | lose index env => exact broadcastToPeersBestEffort (.have index) env s
  | record p sent _ _ => exact recorded p _ _ _ _ sent s
  | receive _ =>
      refine ⟨⟨[_], rfl, fun ref id hmem => ?_⟩, fun _ _ h => h⟩
      cases List.mem_singleton.1 hmem
  | complete index => exact silent rfl rfl
  | stop normal =>
      refine ⟨⟨_, rfl, fun ref id hmem => ?_⟩, fun _ _ h => h⟩
      obtain ⟨peer, -, he⟩ := List.mem_map.1 hmem
      cases he

theorem of_changes {R : ℕ → ℕ → ℕ → Prop} (h : Changes R s t) : Shrinks s t := by
  induction h with
  | refl => exact refl s
  | tail _ hc ih => exact ih.trans (of_change hc)

variable [DecidableEq H] {c : Codec H}

/-- **No message but a connection registers a peer.** -/
theorem handle {m : TorrentMessage c} (h : ∀ id ref, m ≠ .peerConnected id ref)
    (s : TorrentActor H) : Shrinks s (s.handle m) := by
  cases m with
  | peerConnected id ref => exact absurd rfl (h id ref)
  | peerReady id bits alive env =>
      have hnoted : Shrinks s (s.mapScheduler (·.updatePeerAvailability id bits)) := silent rfl rfl
      exact hnoted.trans (of_changes (R := fun _ _ _ => False) (changes_peerReady id bits alive env s))
  | infoBytes bytes env =>
      have hcases := infoBytes_cases c bytes env s
      change Shrinks s (s.infoBytes c bytes env)
      rcases hcases with heq | ⟨info, -, -, -, heq⟩
      · rw [heq]
        exact refl s
      · rw [heq]
        have hresolve : Shrinks s (s.resolveMetadata info) := silent rfl rfl
        exact hresolve.trans (broadcastToPeers _ env _)
  | setState state start stop =>
      by_cases hpaused : state = .paused
      · subst hpaused
        change Shrinks s (s.stopTransfer stop)
        rcases changes_stopTransfer stop s with ⟨-, heq⟩ | ⟨-, hquiet⟩
        · rw [heq]
          have hpause : Shrinks s (s.transitionState .paused) := silent rfl rfl
          exact hpause.trans (broadcastToPeers _ stop _)
        · exact silent hquiet.peers hquiet.outbox
      · exact of_changes (R := fun _ _ _ => False) (changes_setState start stop s hpaused)
  | restoreSnapshot v => exact silent rfl rfl
  | _ => exact of_changes (changes_handle s fun h => h)

/-- A round that registers nobody. -/
theorem step {i : Input c} (h : ∀ id ref, i.message ≠ .peerConnected id ref)
    (s : TorrentActor H) : Shrinks { s with outbox := [] } (s.step i) :=
  (of_changes (R := fun _ _ _ => False) (changes_next i.check s)).trans (handle h _)

end Shrinks

end TorrentActor

/-! ### What arrives -/

/-- The same actor in the same phase, with possibly more in its mailbox. -/
structure PeerProcess.Grows (p q : PeerProcess) : Prop where
  actor : q.actor = p.actor
  phase : q.phase = p.phase
  mailbox : ∃ more, q.mailbox = p.mailbox ++ more

namespace PeerProcess.Grows

theorem refl (p : PeerProcess) : Grows p p := ⟨rfl, rfl, [], (List.append_nil _).symm⟩

theorem trans {p q r : PeerProcess} (h₁ : Grows p q) (h₂ : Grows q r) : Grows p r := by
  obtain ⟨more₁, hmore₁⟩ := h₁.mailbox
  obtain ⟨more₂, hmore₂⟩ := h₂.mailbox
  exact ⟨h₂.actor.trans h₁.actor, h₂.phase.trans h₁.phase, more₁ ++ more₂,
    by rw [hmore₂, hmore₁, List.append_assoc]⟩

end PeerProcess.Grows

namespace Processes

/-- The same actors, with possibly more in their mailboxes. -/
def Grow (ps qs : Processes) : Prop := ∀ ref, Option.Rel PeerProcess.Grows (ps ref) (qs ref)

theorem Grow.refl (ps : Processes) : ps.Grow ps := by
  intro ref
  cases ps ref with
  | none => exact .none
  | some p => exact .some (.refl p)

theorem Grow.trans {ps qs rs : Processes} (h₁ : ps.Grow qs) (h₂ : qs.Grow rs) : ps.Grow rs := by
  intro ref
  have h₁ := h₁ ref
  have h₂ := h₂ ref
  generalize ps ref = o₁ at *
  generalize qs ref = o₂ at *
  generalize rs ref = o₃ at *
  cases h₁ with
  | none => exact h₂
  | some h₁ =>
      cases h₂ with
      | some h₂ => exact .some (h₁.trans h₂)

theorem Grow.of_some {ps qs : Processes} (h : ps.Grow qs) {ref : ActorRef} {p : PeerProcess}
    (hp : ps ref = some p) : ∃ q, qs ref = some q ∧ p.Grows q := by
  have h := h ref
  rw [hp] at h
  cases hq : qs ref with
  | none =>
      rw [hq] at h
      cases h
  | some q =>
      rw [hq] at h
      cases h with
      | some h => exact ⟨q, rfl, h⟩

theorem Grow.of_some' {ps qs : Processes} (h : ps.Grow qs) {ref : ActorRef} {q : PeerProcess}
    (hq : qs ref = some q) : ∃ p, ps ref = some p ∧ p.Grows q := by
  have h := h ref
  rw [hq] at h
  cases hp : ps ref with
  | none =>
      rw [hp] at h
      cases h
  | some p =>
      rw [hp] at h
      cases h with
      | some h => exact ⟨p, rfl, h⟩

theorem grow_post {ps : Processes} {e : Effect} (h : ∀ ref id, e ≠ .spawn ref id) :
    ps.Grow (ps.post e) := by
  cases e with
  | tell ref command =>
      simp only [post]
      cases hp : ps ref with
      | none => exact .refl ps
      | some p =>
          simp only
          split
          · exact .refl ps
          · intro ref'
            by_cases href : ref' = ref
            · subst href
              rw [Function.update_self, hp]
              exact .some ⟨rfl, rfl, [command], rfl⟩
            · rw [Function.update_of_ne href]
              exact Grow.refl ps ref'
  | spawn ref id => exact absurd rfl (h ref id)
  | _ => exact .refl ps

/-- Without a new connection the actors stay the same. -/
theorem grow_postAll {ps : Processes} {es : List Effect}
    (h : ∀ ref id, Effect.spawn ref id ∉ es) : ps.Grow (ps.postAll es) := by
  induction es generalizing ps with
  | nil => exact .refl ps
  | cons e es ih =>
      have hhead : ∀ ref id, e ≠ .spawn ref id := by
        rintro ref id rfl
        exact h ref id (List.mem_cons_self ..)
      exact (grow_post hhead).trans (ih fun ref id hmem => h ref id (List.mem_cons_of_mem _ hmem))

/-- An actor that is not there does not appear without a connection. -/
theorem postAll_eq_none {ps : Processes} {es : List Effect} {ref : ActorRef}
    (h : ∀ ref id, Effect.spawn ref id ∉ es) (hnone : ps ref = none) : ps.postAll es ref = none := by
  cases hq : ps.postAll es ref with
  | none => rfl
  | some q =>
      obtain ⟨p, hp, -⟩ := (grow_postAll h).of_some' hq
      rw [hnone] at hp
      cases hp

end Processes

/-! ### Registered peers have actors -/

/-- Every registered peer has an actor under its id. -/
def Hosted (t : TorrentActor H) (ps : Processes) : Prop :=
  ∀ id ref, t.peers.get? id = some ref → ∃ p, ps ref = some p ∧ p.actor.id = id

theorem Hosted.shrinks {s t : TorrentActor H} {ps : Processes} {new : List Effect}
    (hpeers : ∀ id ref, t.peers.get? id = some ref → s.peers.get? id = some ref)
    (hnew : ∀ ref id, Effect.spawn ref id ∉ new) (h : Hosted s ps) :
    Hosted t (ps.postAll new) := by
  intro id ref hget
  obtain ⟨p, hp, rfl⟩ := h id ref (hpeers id ref hget)
  obtain ⟨q, hq, hgrows⟩ := (Processes.grow_postAll hnew).of_some hp
  exact ⟨q, hq, by rw [hgrows.actor]⟩

/-- What a step of a peer actor leaves alone. -/
theorem PeerProcess.Acts.id {p q : PeerProcess} {i : PeerInput} {es : List PeerEvent}
    (h : p.Acts i q es) : q.actor.id = p.actor.id := by
  cases h with
  | command _ _ ha =>
      subst ha
      exact (PeerActor.perform_spec _ _ _).1
  | wire _ ha =>
      rcases PeerActor.handle_spec ha with ⟨_, _, _, -, -, hb⟩ | ⟨_, _, _, -, hb⟩ | hb
      · rw [hb]
        rfl
      · rw [hb]
      · exact hb.id
  | _ => rfl

/-- Only an actor that has not stopped takes a step. -/
theorem PeerProcess.Acts.alive {p q : PeerProcess} {i : PeerInput} {es : List PeerEvent}
    (h : p.Acts i q es) : p.phase ≠ .stopped := by
  intro hstopped
  cases h with
  | stop h =>
      rw [hstopped] at h
      exact h.elim nofun nofun
  | start h => cases hstopped.symm.trans h
  | startFailed h => cases hstopped.symm.trans h
  | command h => cases hstopped.symm.trans h
  | wire h => cases hstopped.symm.trans h
  | panic h => cases hstopped.symm.trans h
  | timeout h => cases hstopped.symm.trans h

/-- The id a message of a peer actor carries. -/
def PeerEvent.sender : PeerEvent → Option PeerId
  | .peerReady id _ | .incomingPiece id _ _ _ | .peerRejectedRequest id _ _ | .killPeer id => some id
  | .infoBytes _ => none

/-- A peer actor speaks under its own id. -/
theorem PeerProcess.Acts.sender {p q : PeerProcess} {i : PeerInput} {es : List PeerEvent}
    (h : p.Acts i q es) : ∀ e ∈ es, ∀ id, e.sender = some id → id = p.actor.id := by
  have hone : ∀ {e₀ : PeerEvent}, e₀.sender = some p.actor.id →
      ∀ e ∈ [e₀], ∀ id, e.sender = some id → id = p.actor.id := by
    intro e₀ h₀ e he id hid
    rw [List.mem_singleton.1 he] at hid
    exact Option.some.inj (hid.symm.trans h₀)
  cases h with
  | start => exact hone rfl
  | startFailed => exact fun e he => absurd he List.not_mem_nil
  | command _ _ ha =>
      subst ha
      obtain ⟨-, ⟨-, htold⟩ | ⟨_, _, _, -, -, htold⟩⟩ := PeerActor.perform_spec _ _ _
      · rw [htold]
        exact fun e he => absurd he List.not_mem_nil
      · rw [htold]
        exact hone rfl
  | wire _ ha =>
      rcases PeerActor.handle_spec ha with ⟨_, _, _, -, -, hb⟩ | ⟨_, _, _, -, hb⟩ | hb
      · rw [hb, PeerActor.told_tell]
        exact hone rfl
      · rw [hb]
        exact fun e he => absurd he List.not_mem_nil
      · obtain ⟨es, htold, hes⟩ := hb.told
        rw [htold]
        intro e he id hid
        cases hes e he with
        | ready => exact (Option.some.inj hid).symm
        | info => cases hid
  | panic => exact hone rfl
  | timeout => exact hone rfl
  | stop => exact hone rfl

variable [DecidableEq H] {c : Codec H}

/-- A round of the torrent: nobody is registered, or one connection is. -/
theorem step_cases (t : TorrentActor H) (i : TorrentActor.Input c) :
    TorrentActor.Shrinks { t with outbox := [] } (t.step i) ∨
    ∃ p ref u, i.message = .peerConnected (some p) ref ∧
      TorrentActor.Shrinks { t with outbox := [] } u ∧ u.peers = t.peers ∧
      t.peers.get? p = none ∧
      t.step i = { u with peers := u.peers.insert p ref }.emit (.spawn ref p) := by
  by_cases hconnect : ∃ id ref, i.message = .peerConnected id ref
  · obtain ⟨id, ref, hm⟩ := hconnect
    have hnext := TorrentActor.Shrinks.of_changes (R := fun _ _ _ => False)
      (TorrentActor.changes_next i.check t)
    have hstep : t.step i = (t.next i.check).insertPeer id ref := by
      rw [TorrentActor.step, hm]
      rfl
    rw [hstep]
    rcases TorrentActor.insertPeer_cases id ref (t.next i.check) with heq | ⟨p, rfl, hfree, heq⟩
    · rw [heq]
      exact Or.inl hnext
    · rw [heq]
      have hpeers := TorrentActor.peers_next i.check t
      rw [hpeers] at hfree
      exact Or.inr ⟨p, ref, _, hm, hnext, hpeers, hfree, rfl⟩
  · simp only [not_exists] at hconnect
    exact Or.inl (TorrentActor.Shrinks.step hconnect t)

/-- **A round of the torrent seen from outside**: the actors are told something and peers may be
dropped, or a connection gets an actor of its own under an id that was free. -/
theorem Swarm.round_cases (s : Swarm H) (i : TorrentActor.Input c) :
    ∃ new, (∀ ref id, Effect.spawn ref id ∉ new) ∧
      (((s.round i).processes = s.processes.postAll new ∧
          ∀ id ref, (s.round i).torrent.peers.get? id = some ref →
            s.torrent.peers.get? id = some ref) ∨
        ∃ id ref, i.message = .peerConnected (some id) ref ∧ s.torrent.peers.get? id = none ∧
          (s.round i).processes = Function.update (s.processes.postAll new) ref
            (some ⟨PeerActor.new id, [], .starting⟩) ∧
          ∀ id', (s.round i).torrent.peers.get? id' =
            if id' = id then some ref else s.torrent.peers.get? id') := by
  have hprocesses : (s.round i).processes = s.processes.postAll (s.torrent.step i).outbox := rfl
  have htorrent : (s.round i).torrent = s.torrent.step i := rfl
  rw [hprocesses, htorrent]
  rcases step_cases s.torrent i with hshrinks | ⟨id, ref, u, hm, hu, hpeers, hfree, heq⟩
  · obtain ⟨new, hout, hnew⟩ := hshrinks.sent
    exact ⟨new, hnew, Or.inl ⟨by rw [hout]; rfl, hshrinks.peers⟩⟩
  · obtain ⟨new, hout, hnew⟩ := hu.sent
    refine ⟨new, hnew, Or.inr ⟨id, ref, hm, hfree, ?_, ?_⟩⟩
    · rw [heq]
      change s.processes.postAll (u.outbox ++ [.spawn ref id]) = _
      rw [hout, Processes.postAll_append]
      rfl
    · intro id'
      rw [heq]
      change (u.peers.insert id ref).get? id' = _
      rw [HashMap.get?_insert, hpeers]

theorem Hosted.round {s : Swarm H} {i : TorrentActor.Input c}
    (hfresh : ∀ id ref, i.message = .peerConnected id ref → s.processes ref = none)
    (h : Hosted s.torrent s.processes) : Hosted (s.round i).torrent (s.round i).processes := by
  obtain ⟨new, hnew, ⟨hprocesses, hpeers⟩ | ⟨p, ref, hm, -, hprocesses, hpeers⟩⟩ := s.round_cases i
  · rw [hprocesses]
    exact h.shrinks hpeers hnew
  · have hold : Hosted s.torrent (s.processes.postAll new) := h.shrinks (fun _ _ h => h) hnew
    rw [hprocesses]
    intro id ref' hget
    rw [hpeers] at hget
    split at hget
    · rename_i hid
      cases hget
      subst hid
      exact ⟨_, Function.update_self .., rfl⟩
    · obtain ⟨q, hq, hid⟩ := hold id ref' hget
      have hne : ref' ≠ ref := by
        rintro rfl
        rw [Processes.postAll_eq_none hnew (hfresh _ ref' hm)] at hq
        cases hq
      exact ⟨q, by rw [Function.update_of_ne hne, hq], hid⟩

/-- The torrent of a swarm runs as a torrent by itself does. -/
theorem torrent_of_reach {G : Swarm H → SwarmInput c → Prop} {s : Swarm H}
    (h : (swarmSystem c).Reach G s) : (torrentSystem c).Reach (fun _ _ => True) s.torrent := by
  refine h.invariant (I := fun s => (torrentSystem c).Reach (fun _ _ => True) s.torrent) ?_ ?_
  · rintro s ⟨hinit, -⟩
    exact .init hinit
  · rintro s i t hs - ⟨hadmits, happly⟩
    rcases (Swarm.moves_of_apply happly).cases with
      ⟨j, rest, hm, -, rfl⟩ | ⟨ref, j, p, q, es, -, -, -, rfl⟩
    · exact .step hs trivial ⟨hadmits.own _ hm, rfl⟩
    · exact hs

/-- **Every registered peer has an actor under its id.** -/
theorem hosted_of_reach {G : Swarm H → SwarmInput c → Prop} {s : Swarm H}
    (h : (swarmSystem c).Reach G s) : Hosted s.torrent s.processes := by
  refine h.invariant (I := fun s => Hosted s.torrent s.processes) ?_ ?_
  · rintro s ⟨⟨args, disk, hstart⟩, -⟩ id ref hget
    unfold TorrentActor.onStart at hstart
    obtain ⟨hash, -, heq⟩ := Option.map_eq_some_iff.1 hstart
    rw [← heq] at hget
    cases hget
  · rintro s i t hs - ⟨hadmits, happly⟩
    rcases (Swarm.moves_of_apply happly).cases with
      ⟨j, rest, hm, -, rfl⟩ | ⟨ref, j, p, q, es, -, hp, hacts, rfl⟩
    · refine Hosted.round (s := { s with inbox := rest }) (fun id ref hj => ?_) hs
      exact hadmits.fresh id ref (by rw [hm, hj])
    · intro id ref' hget
      obtain ⟨p', hp', hid⟩ := hs id ref' hget
      by_cases href : ref' = ref
      · subst href
        rw [hp] at hp'
        cases hp'
        exact ⟨q, s.processes_report_self .., hacts.id.trans hid⟩
      · exact ⟨p', by rw [s.processes_report_of_ne q es href, hp'], hid⟩

/-- An actor that is not there does not appear without a connection. -/
theorem Swarm.processes_eq_none_of_apply {s t : Swarm H} {i : SwarmInput c} {ref : ActorRef}
    (happly : s.apply i = some t) (hnone : s.processes ref = none)
    (hi : ∀ id, s.nextMessage i ≠ some (.peerConnected (some id) ref)) :
    t.processes ref = none := by
  rcases (Swarm.moves_of_apply happly).cases with
    ⟨j, rest, hm, -, rfl⟩ | ⟨ref', j, p, q, es, -, hp, -, rfl⟩
  · obtain ⟨new, hnew, hcases⟩ := Swarm.round_cases { s with inbox := rest } j
    have hposted : s.processes.postAll new ref = none := Processes.postAll_eq_none hnew hnone
    rcases hcases with ⟨hprocesses, -⟩ | ⟨id, ref', hj, -, hprocesses, -⟩
    · rw [hprocesses]
      exact hposted
    · have hne : ref ≠ ref' := by
        rintro rfl
        exact hi id (by rw [hm, hj])
      rw [hprocesses, Function.update_of_ne hne]
      exact hposted
  · have hne : ref ≠ ref' := by
      rintro rfl
      rw [hnone] at hp
      cases hp
    rw [s.processes_report_of_ne q es hne]
    exact hnone

/-! ### A small swarm -/

namespace Sample

/-- An input that asks nothing of the surroundings: no connection, no snapshot, and nobody is found
dead. -/
def Plain : SwarmInput codec → Prop
  | .outside i => (∀ id ref, i.message ≠ .peerConnected id ref) ∧ i.message.restoredRows = none ∧
      ∀ id, i.message.findsDead id = false
  | .deliver env => ∀ id, env.broadcast.dead id = false ∧ env.block.broadcast.dead id = false
  | .peer .. => True

theorem Plain.message {i : SwarmInput codec} (h : Plain i) {s : Swarm Bytes}
    {m : TorrentMessage codec} (hm : s.nextMessage i = some m) :
    (∀ id ref, m ≠ .peerConnected id ref) ∧ m.restoredRows = none ∧ ∀ id, m.findsDead id = false := by
  cases i with
  | outside i =>
      cases hm
      exact h
  | peer => cases hm
  | deliver env =>
      obtain ⟨⟨ref, e⟩, -, rfl⟩ := Option.map_eq_some_iff.1 hm
      cases e with
      | incomingPiece => exact ⟨nofun, rfl, fun id => (h id).2⟩
      | infoBytes => exact ⟨nofun, rfl, fun id => (h id).1⟩
      | _ => exact ⟨nofun, rfl, fun id => rfl⟩

theorem restoresOwn_of_restoredRows {s : TorrentActor Bytes} {m : TorrentMessage codec}
    (h : m.restoredRows = none) : s.RestoresOwn m := by
  cases m with
  | restoreSnapshot => cases h
  | _ => trivial

theorem Plain.admits {i : SwarmInput codec} (h : Plain i) (s : Swarm Bytes) : s.Admits i where
  fresh id ref hm := absurd rfl ((h.message hm).1 id ref)
  own _ hm := restoresOwn_of_restoredRows (h.message hm).2.1
  dead m hm id hdead := by
    rw [(h.message hm).2.2 id] at hdead
    cases hdead

/-- One input after the other. -/
def runSwarm (s : Swarm Bytes) (is : List (SwarmInput codec)) : Option (Swarm Bytes) :=
  is.foldlM Swarm.apply s

theorem reach_runSwarm {G : Swarm Bytes → SwarmInput codec → Prop} {s t : Swarm Bytes}
    {is : List (SwarmInput codec)} (hs : (swarmSystem codec).Reach G s)
    (hrun : runSwarm s is = some t) (hplain : ∀ i ∈ is, Plain i ∧ ∀ s, G s i) :
    (swarmSystem codec).Reach G t := by
  induction is generalizing s with
  | nil =>
      cases hrun
      exact hs
  | cons i is ih =>
      obtain ⟨u, hu, hrest⟩ := Option.bind_eq_some_iff.1 hrun
      obtain ⟨hi, hG⟩ := hplain i (List.mem_cons_self ..)
      exact ih (.step hs (hG s) ⟨hi.admits s, hu⟩) hrest
        fun i' hi' => hplain i' (List.mem_cons_of_mem _ hi')

theorem processes_eq_none_of_runSwarm {s t : Swarm Bytes} {is : List (SwarmInput codec)}
    {ref : ActorRef} (hrun : runSwarm s is = some t) (hplain : ∀ i ∈ is, Plain i)
    (hnone : s.processes ref = none) : t.processes ref = none := by
  induction is generalizing s with
  | nil =>
      cases hrun
      exact hnone
  | cons i is ih =>
      obtain ⟨u, hu, hrest⟩ := Option.bind_eq_some_iff.1 hrun
      have hi := hplain i (List.mem_cons_self ..)
      refine ih hrest (fun i' hi' => hplain i' (List.mem_cons_of_mem _ hi')) ?_
      exact Swarm.processes_eq_none_of_apply hu hnone fun id hm => (hi.message hm).1 _ _ rfl

/-- The swarm after the inputs. -/
def after (s : Swarm Bytes) (is : List (SwarmInput codec)) : Swarm Bytes :=
  (runSwarm s is).getD s

theorem runSwarm_eq_after {s : Swarm Bytes} {is : List (SwarmInput codec)}
    (hrun : (runSwarm s is).isSome = true) : runSwarm s is = some (after s is) := by
  obtain ⟨t, ht⟩ := Option.isSome_iff_exists.1 hrun
  rw [after, ht, Option.getD_some]

theorem reach_after {G : Swarm Bytes → SwarmInput codec → Prop} {s : Swarm Bytes}
    {is : List (SwarmInput codec)} (hs : (swarmSystem codec).Reach G s)
    (hrun : (runSwarm s is).isSome = true) (hplain : ∀ i ∈ is, Plain i ∧ ∀ s, G s i) :
    (swarmSystem codec).Reach G (after s is) :=
  reach_runSwarm hs (runSwarm_eq_after hrun) hplain

/-- One input. -/
theorem reach_after_one {G : Swarm Bytes → SwarmInput codec → Prop} {s : Swarm Bytes}
    {i : SwarmInput codec} (hs : (swarmSystem codec).Reach G s) (hplain : Plain i) (hG : G s i)
    (hrun : (runSwarm s [i]).isSome = true) : (swarmSystem codec).Reach G (after s [i]) := by
  obtain ⟨t, ht, heq⟩ := Option.bind_eq_some_iff.1 (runSwarm_eq_after hrun)
  cases heq
  exact .step hs hG ⟨hplain.admits s, ht⟩

/-- The torrent without peers. -/
def alone (torrent : TorrentActor Bytes) : Swarm Bytes := ⟨torrent, fun _ => none, [], []⟩

/-- A peer connects. -/
def connect (id : PeerId) (ref : ActorRef) : SwarmInput codec :=
  .outside (input (.peerConnected (some id) ref))

theorem reach_connect {G : Swarm Bytes → SwarmInput codec → Prop} {s : Swarm Bytes} {id : PeerId}
    {ref : ActorRef} (hs : (swarmSystem codec).Reach G s) (hG : G s (connect id ref))
    (hfresh : s.processes ref = none) :
    (swarmSystem codec).Reach G (after s [connect id ref]) := by
  refine .step hs hG ⟨⟨?_, ?_, ?_⟩, rfl⟩
  · rintro id' ref' ⟨⟩
    exact hfresh
  · rintro m ⟨⟩
    trivial
  · rintro m ⟨⟩ id' hdead
    cases hdead

def deliverEnv : DeliverEnv :=
  ⟨startEnv, blockEnv, fillEnv, fillAllEnv, broadcastEnv, true, []⟩

def deliver : SwarmInput codec := .deliver deliverEnv

theorem plain_deliver : Plain deliver := fun _ => ⟨rfl, rfl⟩

end Sample

end Tortillas
