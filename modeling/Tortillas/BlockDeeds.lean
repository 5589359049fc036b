/-
**What a round does with blocks.**

Seen from the blocks, most of what the torrent actor does is talk: peers come and go, are choked and
unchoked and are told of pieces, while nothing is asked for and the rows of received blocks stay as
they are.  What remains are four deeds: blocks are asked for, a block is recorded, a piece is found
to be fully received, and a piece is completed.  Every round is a sequence of these, except that a
snapshot may replace the rows at its end, and that metadata may become known at its end.

Main definitions:

* `Effect.IsPlain` — an effect that has nothing to do with blocks;
* `TorrentActor.Tells` — the rows are untouched and nothing is asked for;
* `TorrentActor.Deed`, `TorrentActor.Deeds` — one deed, and a sequence of deeds.

Main results:

* `TorrentActor.deed_of_change` — a change is a deed;
* `TorrentActor.step_deeds` — **a round is a sequence of deeds, or ends with a snapshot or with the
  metadata of a magnet link**.
-/

import Tortillas.SwarmRounds

set_option relaxedAutoImplicit false
set_option autoImplicit false

namespace Tortillas

variable {H : Type}

/-- An effect that has nothing to do with blocks. -/
def Effect.IsPlain : Effect → Prop
  | .tell _ (.needPiece ..) => False
  | .tell .. | .kill _ | .spawn .. => True
  | .blockWritten .. | .rowCreated _ | .pieceReceived _ => False

namespace TorrentActor

/-- The rows are untouched and nothing is asked for. -/
structure Tells (s t : TorrentActor H) : Prop where
  infoDict : t.infoDict = s.infoDict
  rows : t.pieceScheduler.completedBlocks = s.pieceScheduler.completedBlocks
  pieces : t.pieceScheduler.completedPieces = s.pieceScheduler.completedPieces
  sent : ∃ new, t.outbox = s.outbox ++ new ∧ ∀ e ∈ new, e.IsPlain

namespace Tells

variable {s t : TorrentActor H}

/-- Nothing is sent. -/
theorem silent (hinfo : t.infoDict = s.infoDict)
    (hrows : t.pieceScheduler.completedBlocks = s.pieceScheduler.completedBlocks)
    (hpieces : t.pieceScheduler.completedPieces = s.pieceScheduler.completedPieces)
    (hout : t.outbox = s.outbox) : Tells s t :=
  ⟨hinfo, hrows, hpieces, [], by rw [hout, List.append_nil], fun _ h => absurd h List.not_mem_nil⟩

theorem quiet (h : Quiet s t) : Tells s t :=
  silent h.infoDict (by rw [h.scheduler]) (by rw [h.scheduler]) h.outbox

theorem removePeer (id : PeerId) (s : TorrentActor H) : Tells s (s.removePeer id).1 := by
  unfold TorrentActor.removePeer
  split
  · rename_i ref hget
    refine ⟨rfl, rfl, rfl, [.kill ref], rfl, ?_⟩
    intro e he
    rw [List.mem_singleton.1 he]
    trivial
  · exact silent rfl rfl rfl rfl

theorem broadcastToPeers (command : PeerCommand) (h : ∀ ref, (Effect.tell ref command).IsPlain)
    (env : BroadcastEnv) (s : TorrentActor H) : Tells s (s.broadcastToPeers command env) := by
  refine ⟨rfl, rfl, rfl, _, rfl, ?_⟩
  intro e he
  obtain ⟨q, ref, -, rfl⟩ := mem_told he
  exact h ref

theorem broadcastToPeersBestEffort (command : PeerCommand)
    (h : ∀ ref, (Effect.tell ref command).IsPlain) (env : BroadcastEnv) (s : TorrentActor H) :
    Tells s (s.broadcastToPeersBestEffort command env) := by
  obtain ⟨hpieces, hrows, -⟩ := foldl_peerDisconnected_eq
    ((s.peers.toList.map Prod.fst).filter env.dead) s.pieceScheduler
  refine ⟨rfl, hrows, hpieces, _, rfl, ?_⟩
  intro e he
  obtain ⟨q, ref, -, rfl⟩ := mem_told (f := fun id => !env.dead id && env.sent id) he
  exact h ref

theorem onStop (normal : Bool) (s : TorrentActor H) : Tells s (s.onStop normal) := by
  refine ⟨rfl, rfl, rfl, _, rfl, ?_⟩
  intro e he
  obtain ⟨peer, -, rfl⟩ := List.mem_map.1 he
  trivial

theorem insertPeer (id : Option PeerId) (ref : ActorRef) (s : TorrentActor H) :
    Tells s (s.insertPeer id ref) := by
  rcases insertPeer_cases id ref s with heq | ⟨p, -, -, heq⟩
  · rw [heq]
    exact silent rfl rfl rfl rfl
  · rw [heq]
    refine ⟨rfl, rfl, rfl, [.spawn ref p], rfl, ?_⟩
    intro e he
    rw [List.mem_singleton.1 he]
    trivial

end Tells

/-- One deed.  `R` says which blocks may be recorded. -/
inductive Deed (R : ℕ → ℕ → ℕ → Prop) : TorrentActor H → TorrentActor H → Prop
  | tells {s t : TorrentActor H} (h : Tells s t) : Deed R s t
  | request {s t : TorrentActor H} (h : Requesting s t) : Deed R s t
  | record {s : TorrentActor H} {index offset length n : ℕ} {info : Info H} (p : PeerId)
      (sent : Bool) (ha : s.Accepts index offset length info n) (hR : R index offset length) :
      Deed R s (s.recorded p index offset length n sent)
  | receive {s : TorrentActor H} {index : ℕ}
      (h : s.pieceScheduler.isPieceComplete index = true) : Deed R s (s.received index)
  | complete {s : TorrentActor H} (index : ℕ) : Deed R s (s.completePiece index)

/-- A sequence of deeds. -/
abbrev Deeds (R : ℕ → ℕ → ℕ → Prop) : TorrentActor H → TorrentActor H → Prop :=
  Relation.ReflTransGen (Deed R)

variable {R : ℕ → ℕ → ℕ → Prop} {s t : TorrentActor H}

/-- **A change is a deed.** -/
theorem deed_of_change (h : Change R s t) : Deed R s t := by
  cases h with
  | quiet h => exact .tells (.quiet h)
  | request h => exact .request h
  | available id bits _ => exact .tells (.silent rfl rfl rfl rfl)
  | remove id => exact .tells (.removePeer id s)
  | lose index env => exact .tells (.broadcastToPeersBestEffort (.have index) (fun _ => trivial) env s)
  | record p sent ha hR => exact .record p sent ha hR
  | receive h => exact .receive h
  | complete index => exact .complete index
  | stop normal => exact .tells (.onStop normal s)

theorem deeds_of_changes (h : Changes R s t) : Deeds R s t := by
  induction h with
  | refl => exact .refl
  | tail _ hchange ih => exact ih.tail (deed_of_change hchange)

/-- What every deed keeps, every sequence of deeds keeps. -/
theorem Deeds.invariant {I : TorrentActor H → Prop} (hstep : ∀ s t, Deed R s t → I s → I t)
    (h : Deeds R s t) (hs : I s) : I t := by
  induction h with
  | refl => exact hs
  | tail _ hdeed ih => exact hstep _ _ hdeed ih

/-- No deed changes the metadata. -/
theorem Deed.infoDict (h : Deed R s t) : t.infoDict = s.infoDict := by
  cases h with
  | tells h => exact h.infoDict
  | request h => exact h.infoDict
  | record p sent ha hR =>
      rw [recorded_frame]
      rfl
  | receive h => rfl
  | complete index => rfl

/-- No deed changes the number of pieces. -/
theorem Deed.length_completedPieces (h : Deed R s t) :
    t.pieceScheduler.completedPieces.length = s.pieceScheduler.completedPieces.length := by
  cases h with
  | tells h => rw [h.pieces]
  | request h => rw [h.scheduler.completedPieces]
  | record p sent ha hR =>
      rw [recorded_frame]
      exact congrArg List.length (recordBlock_pieces s _ _ _).1
  | receive h => rfl
  | complete index => exact List.length_set

/-! ### Rounds -/

variable [DecidableEq H] {c : Codec H}

/-- Only special messages bring rows along. -/
theorem restoredRows_of_not_special {m : TorrentMessage c} (h : ¬ Special m) :
    m.restoredRows = none := by
  cases m with
  | restoreSnapshot v => exact absurd trivial h
  | _ => rfl

/-- **A round is a sequence of deeds, or ends with a snapshot or with the metadata of a magnet
link.** -/
theorem step_deeds (s : TorrentActor H) (i : Input c) :
    (∃ v u, i.message = .restoreSnapshot v ∧ Deeds (Brings i.message) { s with outbox := [] } u ∧
      u.metainfo = s.metainfo ∧ s.step i = u.restoreSnapshot v.snapshot) ∨
    (i.message.restoredRows = none ∧
      (Deeds (Brings i.message) { s with outbox := [] } (s.step i) ∨
        ∃ u info env, Deeds (Brings i.message) { s with outbox := [] } u ∧ u.infoDict = none ∧
          s.step i = (u.resolveMetadata info).broadcastToPeers
            (.haveInfoDict (List.replicate info.pieceCount false)) env)) := by
  have hnext : Deeds (Brings i.message) { s with outbox := [] } (s.next i.check) :=
    deeds_of_changes (changes_next i.check s)
  have htells : ∀ {t : TorrentActor H}, Tells (s.next i.check) t →
      Deeds (Brings i.message) { s with outbox := [] } t := fun h => hnext.tail (.tells h)
  unfold step
  by_cases hspecial : Special i.message
  · cases hm : i.message with
    | peerConnected id ref =>
        rw [hm] at htells
        exact Or.inr ⟨rfl, Or.inl (htells (.insertPeer id ref _))⟩
    | peerReady id bits alive env =>
        rw [hm] at htells
        have hnoted : Tells (s.next i.check)
            ((s.next i.check).mapScheduler (·.updatePeerAvailability id bits)) :=
          .silent rfl rfl rfl rfl
        exact Or.inr ⟨rfl, Or.inl ((htells hnoted).trans
          (deeds_of_changes (changes_peerReady id bits alive env _)))⟩
    | infoBytes bytes env =>
        rw [hm] at hnext
        refine Or.inr ⟨rfl, ?_⟩
        rcases infoBytes_cases c bytes env (s.next i.check) with heq | ⟨info, hnone, -, -, heq⟩
        · refine Or.inl ?_
          change Deeds _ _ ((s.next i.check).infoBytes c bytes env)
          rw [heq]
          exact hnext
        · exact Or.inr ⟨_, info, env, hnext, hnone, heq⟩
    | setState state start stop =>
        rw [hm] at hnext htells
        refine Or.inr ⟨rfl, Or.inl ?_⟩
        by_cases hpaused : state = .paused
        · subst hpaused
          rcases changes_stopTransfer stop (s.next i.check) with ⟨-, heq⟩ | ⟨-, hquiet⟩
          · change Deeds _ _ ((s.next i.check).stopTransfer stop)
            rw [heq]
            have hstate : Tells (s.next i.check) ((s.next i.check).transitionState .paused) :=
              .quiet ⟨rfl, rfl, rfl, rfl⟩
            exact (htells hstate).tail
              (.tells (.broadcastToPeers (.setChoked true) (fun _ => trivial) stop _))
          · exact htells (.quiet hquiet)
        · exact hnext.trans (deeds_of_changes (changes_setState start stop _ hpaused))
    | restoreSnapshot v =>
        rw [hm] at hnext
        exact Or.inl ⟨v, _, rfl, hnext, (sameData_next i.check s).metainfo, rfl⟩
    | _ =>
        rw [hm] at hspecial
        exact hspecial.elim
  · exact Or.inr ⟨restoredRows_of_not_special hspecial,
      Or.inl (hnext.trans (deeds_of_changes (changes_handle _ hspecial)))⟩

end TorrentActor

end Tortillas
