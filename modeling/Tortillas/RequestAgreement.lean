/-
**Two actors and one request.**

A block that is in flight is written down twice: in the torrent, for the peer it was asked of, and
in the peer actor, among the requests that actor waits for.  The two only exchange messages.  What
is in flight should be pending in the peer actor, or about to be, or what ends it should be on its
way to the torrent: the block, a refusal or a farewell.

It is, but for two things.  A remote that sends a cancellation makes the peer actor forget one of
its own requests, which the torrent goes on waiting for.  And a pause drops the peers whose actors
are dead without telling the scheduler; when such an actor never started, nobody else will.

Main definitions:

* `PeerProcess.view` — what an actor waits for once it has read its mailbox;
* `Agreed` — the invariant;
* `RequestsAgree` — what is in flight is pending, about to be, or about to end;
* `CancelsPending`, `DropsInFlight`, `StorageFails` — the inputs that are left out.

Main results:

* `Agreed.change` — every change of the torrent keeps the invariant;
* `requests_agree` — **in every run without these inputs torrent and peer actors agree on what is
  in flight**, and a wire message takes a request away exactly when it is the block or cancels it.
-/

import Tortillas.SwarmRounds
import Tortillas.Outstanding
import Tortillas.Registered

set_option relaxedAutoImplicit false
set_option autoImplicit false

namespace Tortillas

/-! ### What a peer actor waits for -/

namespace PeerCommand

/-- The cancellation of a block. -/
def cancel (k : BlockKey) : PeerCommand := .cancelPiece k.1 k.2.1 k.2.2

variable {k : BlockKey} {s t : Finset BlockKey} {command : PeerCommand}

/-- Only its cancellation takes a block out. -/
theorem mem_applyTo (h : k ∈ s) (hne : command ≠ cancel k) : k ∈ command.applyTo s := by
  cases command with
  | needPiece => exact Finset.mem_insert_of_mem h
  | cancelPiece index start length =>
      refine Finset.mem_erase.2 ⟨?_, h⟩
      rintro rfl
      exact hne rfl
  | _ => exact h

/-- What a command does to a block depends on that block alone. -/
theorem applyTo_imp (h : k ∈ s → k ∈ t) (hk : k ∈ command.applyTo s) : k ∈ command.applyTo t := by
  cases command with
  | needPiece =>
      rcases Finset.mem_insert.1 hk with rfl | hk
      · exact Finset.mem_insert_self ..
      · exact Finset.mem_insert_of_mem (h hk)
  | cancelPiece =>
      obtain ⟨hne, hk⟩ := Finset.mem_erase.1 hk
      exact Finset.mem_erase.2 ⟨hne, h hk⟩
  | _ => exact h hk

theorem foldl_applyTo_imp {commands : List PeerCommand} (h : k ∈ s → k ∈ t)
    (hk : k ∈ commands.foldl applyTo s) : k ∈ commands.foldl applyTo t := by
  induction commands generalizing s t with
  | nil => exact h hk
  | cons command commands ih => exact ih (applyTo_imp h) hk

theorem of_mem_foldl_applyTo {commands : List PeerCommand}
    (hk : k ∈ commands.foldl applyTo s) : k ∈ s ∨ need k ∈ commands := by
  induction commands generalizing s with
  | nil => exact Or.inl hk
  | cons command commands ih =>
      rcases ih hk with h | h
      · rcases of_mem_applyTo h with h | rfl
        · exact Or.inl h
        · exact Or.inr (List.mem_cons_self ..)
      · exact Or.inr (List.mem_cons_of_mem _ h)

end PeerCommand

/-- What an actor waits for once it has read its mailbox. -/
def PeerProcess.view (p : PeerProcess) : Finset BlockKey :=
  p.mailbox.foldl PeerCommand.applyTo p.actor.pendingBlockRequests

namespace Processes

variable {ps : Processes} {ref : ActorRef} {k : BlockKey}

/-- The actor waits for the block, or will once it has read its mailbox, unless it has stopped. -/
def Waits (ps : Processes) (ref : ActorRef) (k : BlockKey) : Prop :=
  ∀ p, ps ref = some p → p.phase ≠ .stopped → k ∈ p.view

/-- A command to an actor that has not stopped is the last thing it will have read. -/
theorem waits_post_tell {command : PeerCommand}
    (h : ∀ p, ps ref = some p → p.phase ≠ .stopped → k ∈ command.applyTo p.view) :
    (ps.post (.tell ref command)).Waits ref k := by
  intro q hq halive
  cases hp : ps ref with
  | none =>
      simp only [post, hp] at hq
      cases hq
  | some p =>
      simp only [post, hp] at hq
      split at hq
      · rename_i hstopped
        rw [hp] at hq
        cases hq
        exact absurd hstopped halive
      · rename_i hrunning
        rw [Function.update_self] at hq
        cases hq
        rw [PeerProcess.view, List.foldl_append]
        exact h p hp hrunning

theorem post_apply_of_ne {ref' : ActorRef} (command : PeerCommand) (h : ref ≠ ref') :
    ps.post (.tell ref' command) ref = ps ref := by
  simp only [post]
  cases ps ref' with
  | none => rfl
  | some p =>
      simp only
      split
      · rfl
      · exact Function.update_of_ne h ..

/-- The actor goes on waiting, unless it is told that the block is no longer needed. -/
theorem Waits.post {e : Effect} (h : ps.Waits ref k) (hspawn : ∀ ref' id, e ≠ .spawn ref' id)
    (hcancel : e ≠ .tell ref (.cancel k)) : (ps.post e).Waits ref k := by
  cases e with
  | tell ref' command =>
      by_cases href : ref = ref'
      · subst href
        refine waits_post_tell fun p hp halive => PeerCommand.mem_applyTo (h p hp halive) ?_
        rintro rfl
        exact hcancel rfl
      · intro p hp
        rw [post_apply_of_ne command href] at hp
        exact h p hp
  | spawn ref' id => exact absurd rfl (hspawn ref' id)
  | _ => exact h

theorem Waits.postAll {es : List Effect} (h : ps.Waits ref k)
    (hspawn : ∀ ref' id, Effect.spawn ref' id ∉ es) (hcancel : Effect.tell ref (.cancel k) ∉ es) :
    (ps.postAll es).Waits ref k := by
  induction es generalizing ps with
  | nil => exact h
  | cons e es ih =>
      refine ih (h.post ?_ ?_) ?_ ?_
      · rintro ref' id rfl
        exact hspawn ref' id (List.mem_cons_self ..)
      · rintro rfl
        exact hcancel (List.mem_cons_self ..)
      · exact fun ref' id hmem => hspawn ref' id (List.mem_cons_of_mem _ hmem)
      · exact fun hmem => hcancel (List.mem_cons_of_mem _ hmem)

/-- An actor that is asked for a block waits for it. -/
theorem waits_postAll {es : List Effect} (hspawn : ∀ ref' id, Effect.spawn ref' id ∉ es)
    (hcancel : Effect.tell ref (.cancel k) ∉ es) (h : Effect.tell ref (.need k) ∈ es) :
    (ps.postAll es).Waits ref k := by
  induction es generalizing ps with
  | nil => exact absurd h List.not_mem_nil
  | cons e es ih =>
      have hspawn' : ∀ ref' id, Effect.spawn ref' id ∉ es :=
        fun ref' id hmem => hspawn ref' id (List.mem_cons_of_mem _ hmem)
      have hcancel' : Effect.tell ref (.cancel k) ∉ es :=
        fun hmem => hcancel (List.mem_cons_of_mem _ hmem)
      rcases List.mem_cons.1 h with rfl | h
      · have hasked : (ps.post (.tell ref (.need k))).Waits ref k :=
          waits_post_tell fun p _ _ => Finset.mem_insert_self ..
        exact hasked.postAll hspawn' hcancel'
      · exact ih hspawn' hcancel' h

end Processes

/-! ### The invariant -/

/-- A message that ends the wait for a block: the block, a refusal, or the farewell of its peer. -/
def PeerEvent.Settles (id : PeerId) (k : BlockKey) : PeerEvent → Prop
  | .incomingPiece peerId index offset block => peerId = id ∧ k = (index, offset, block.length)
  | .peerRejectedRequest peerId index offset => peerId = id ∧ k.1 = index ∧ k.2.1 = offset
  | .killPeer peerId => peerId = id
  | _ => False

variable {H : Type}

/-- What is in flight can be received, and something on its way settles it or its peer is registered
and waits for it. -/
structure Agreed (es : List PeerEvent) (t : TorrentActor H) (ps : Processes) : Prop where
  sized : t.pieceScheduler.completedPieces.length = t.pieceCount ∨
    t.pieceScheduler.completedPieces.length = 0
  asked : ∀ i j x, t.pieceScheduler.inFlightAt i j = some x → ∃ info, t.Outstanding info i j ∧
    ((∃ e ∈ es, e.Settles x.peerId (info.blockKey i j)) ∨
      ∃ ref, t.peers.get? x.peerId = some ref ∧ ps.Waits ref (info.blockKey i j))

namespace Agreed

variable {es : List PeerEvent} {s t : TorrentActor H} {ps qs : Processes}

/-- Nothing new is in flight, and for what still is nothing has got worse. -/
theorem mono (h : Agreed es s ps) (hinfo : t.infoDict = s.infoDict)
    (hlen : t.pieceScheduler.completedPieces.length = s.pieceScheduler.completedPieces.length)
    (hrest : ∀ i j x, t.pieceScheduler.inFlightAt i j = some x →
      s.pieceScheduler.inFlightAt i j = some x ∧
      (s.pieceScheduler.isDuplicateBlock i j = false →
        t.pieceScheduler.isDuplicateBlock i j = false) ∧
      (∀ ref, s.peers.get? x.peerId = some ref → t.peers.get? x.peerId = some ref) ∧
      ∀ (ref : ActorRef) (info : Info H), ps.Waits ref (info.blockKey i j) →
        qs.Waits ref (info.blockKey i j)) :
    Agreed es t qs where
  sized := by
    rw [hlen, TorrentActor.pieceCount, hinfo]
    exact h.sized
  asked := by
    intro i j x hx
    obtain ⟨hold, hmissing, hpeers, hwaits⟩ := hrest i j x hx
    obtain ⟨info, hout, hsettled⟩ := h.asked i j x hold
    refine ⟨info, ⟨hinfo.trans hout.info, hout.piece, hout.block, hmissing hout.missing⟩, ?_⟩
    refine hsettled.imp_right ?_
    rintro ⟨ref, hget, hw⟩
    exact ⟨ref, hpeers ref hget, hwaits ref info hw⟩

/-- The outbox does not matter. -/
theorem clear (h : Agreed es t ps) : Agreed es { t with outbox := [] } ps :=
  h.mono rfl rfl fun _ _ _ hx => ⟨hx, id, fun _ => id, fun _ _ => id⟩

/-- A message that settles nothing in flight may be forgotten. -/
theorem drop {e : PeerEvent} (h : Agreed (e :: es) t ps)
    (he : ∀ i j x info, t.pieceScheduler.inFlightAt i j = some x → t.Outstanding info i j →
      ¬ e.Settles x.peerId (info.blockKey i j)) : Agreed es t ps where
  sized := h.sized
  asked := by
    intro i j x hx
    obtain ⟨info, hout, hsettled⟩ := h.asked i j x hx
    refine ⟨info, hout, hsettled.imp_left ?_⟩
    rintro ⟨e', hmem, hsettles⟩
    rcases List.mem_cons.1 hmem with rfl | hmem
    · exact absurd hsettles (he i j x info hx hout)
    · exact ⟨e', hmem, hsettles⟩

/-- Nothing is in flight. -/
theorem of_idle (hsized : t.pieceScheduler.completedPieces.length = t.pieceCount ∨
      t.pieceScheduler.completedPieces.length = 0)
    (h : ∀ i j, t.pieceScheduler.inFlightAt i j = none) : Agreed es t ps where
  sized := hsized
  asked i j x hx := by
    rw [h i j] at hx
    cases hx

/-! ### Changes -/

/-- Blocks are requested and released. -/
theorem carries_requesting (h : TorrentActor.Requesting s t) :
    Carries (Agreed es) (Agreed es) s t := by
  obtain ⟨new, hout, hnew, hasked⟩ := h.sent
  have hspawn : ∀ ref id, Effect.spawn ref id ∉ new := by
    intro ref id hmem
    cases hnew _ hmem
  have hcancel : ∀ ref k, Effect.tell ref (.cancel k) ∉ new := by
    intro ref k hmem
    cases hnew _ hmem
  refine ⟨new, hout, fun ps hs => ⟨?_, ?_⟩⟩
  · rw [h.scheduler.completedPieces, TorrentActor.pieceCount, h.infoDict]
    exact hs.sized
  · intro i j x hx
    rcases hasked i j x hx with hold | ⟨ref, info, r, hget, hinfo, rfl, rfl, hwanted, htold⟩
    · obtain ⟨info, hout, hsettled⟩ := hs.asked i j x hold
      refine ⟨info, ⟨h.infoDict.trans hout.info, hout.piece, hout.block, ?_⟩, ?_⟩
      · rw [PieceScheduler.isDuplicateBlock_congr h.scheduler.completedBlocks]
        exact hout.missing
      · rw [h.peers]
        refine hsettled.imp_right ?_
        rintro ⟨ref, hget, hw⟩
        exact ⟨ref, hget, hw.postAll hspawn (hcancel ref _)⟩
    · -- the block is newly in flight: its peer has been asked for it
      have hlen : s.pieceScheduler.completedPieces.length = info.pieceCount := by
        obtain ⟨hlt, -⟩ := List.getElem?_eq_some_iff.1 hwanted.piece
        have hsized := hs.sized
        rw [TorrentActor.pieceCount, hinfo] at hsized
        change _ = info.pieceCount ∨ _ at hsized
        omega
      obtain ⟨hpiece, hblock, hkey⟩ := hwanted.key hlen
      refine ⟨info, ⟨h.infoDict.trans hinfo, hpiece, hblock, ?_⟩, Or.inr ⟨ref, ?_, ?_⟩⟩
      · rw [PieceScheduler.isDuplicateBlock_congr h.scheduler.completedBlocks]
        exact hwanted.missing
      · rw [h.peers]
        exact hget
      · refine Processes.waits_postAll hspawn (hcancel ref _) ?_
        rw [← hkey]
        exact htold

/-- A block is recorded: it is no longer in flight, and only its request is cancelled. -/
theorem carries_recorded (es : List PeerEvent) (p : PeerId) (index offset length n : ℕ) (sent : Bool)
    (s : TorrentActor H) :
    Carries (Agreed es) (Agreed es) s (s.recorded p index offset length n sent) ∧
    (s.recorded p index offset length n sent).pieceScheduler.inFlightAt index
      (offset / blockSize) = none := by
  obtain ⟨new, hout, hnew⟩ := TorrentActor.outbox_recorded p index offset length n sent s
  have heq := TorrentActor.recorded_eq p
    (s.pieceScheduler.markBlockComplete index (offset / blockSize) n).2 index offset length n sent s
  change s.recorded p index offset length n sent = _ at heq
  have hat := s.pieceScheduler.inFlightAt_markBlockComplete index (offset / blockSize) n
  refine ⟨⟨new, hout, fun ps hs => ?_⟩, ?_⟩
  · rw [heq]
    refine hs.mono rfl ?_ ?_
    · exact congrArg List.length (TorrentActor.recordBlock_pieces s index offset n).1
    · intro i j x hx
      change (s.pieceScheduler.markBlockComplete index (offset / blockSize) n).1.inFlightAt i j = _
        at hx
      rw [hat] at hx
      split at hx
      · cases hx
      · rename_i hne
        refine ⟨hx, ?_, fun ref hget => hget, ?_⟩
        · intro hmissing
          exact (PieceScheduler.isDuplicateBlock_markBlockComplete n hne).trans hmissing
        · intro ref info hwaits
          refine hwaits.postAll ?_ ?_
          · intro ref' id hmem
            rcases hnew _ hmem with he | he | ⟨q, ref'', -, he⟩ <;> cases he
          · intro hmem
            rcases hnew _ hmem with he | he | ⟨q, ref', -, he⟩
            · cases he
            · cases he
            · have hkey : info.blockKey i j = (index, offset, length) := by
                cases he
                rfl
              exact hne (Info.eq_of_blockKey hkey)
  · rw [heq]
    exact (hat _ _).trans (if_pos ⟨rfl, rfl⟩)

/-- A peer is dropped, and with it what is in flight for it. -/
theorem carries_removePeer (es : List PeerEvent) (id : PeerId) (s : TorrentActor H) :
    Carries (Agreed es) (Agreed es) s (s.removePeer id).1 := by
  have hfacts : (s.removePeer id).1.pieceScheduler = s.pieceScheduler.peerDisconnected id ∧
      (s.removePeer id).1.infoDict = s.infoDict ∧
      (∀ q, q ≠ id → (s.removePeer id).1.peers.get? q = s.peers.get? q) ∧
      ∃ kills : List ActorRef, (s.removePeer id).1.outbox = s.outbox ++ kills.map Effect.kill := by
    unfold TorrentActor.removePeer
    split
    · rename_i ref _
      exact ⟨rfl, rfl, fun q hq => HashMap.get?_erase_of_ne hq, [ref], rfl⟩
    · exact ⟨rfl, rfl, fun q _ => rfl, [], (List.append_nil _).symm⟩
  obtain ⟨hsched, hinfo, hpeers, kills, hkills⟩ := hfacts
  refine ⟨_, hkills, fun ps hs => hs.mono hinfo (by rw [hsched]; rfl) ?_⟩
  intro i j x hx
  rw [hsched, PieceScheduler.inFlightAt_peerDisconnected] at hx
  obtain ⟨hold, hne⟩ := Option.filter_eq_some_iff.1 hx
  have hne : x.peerId ≠ id := by simpa using hne
  refine ⟨hold, ?_, ?_, ?_⟩
  · intro hmissing
    rw [hsched]
    exact hmissing
  · intro ref hget
    rw [hpeers _ hne]
    exact hget
  · intro ref info hwaits
    refine hwaits.postAll ?_ ?_
    · simp
    · simp

/-- Every peer is told something that is no cancellation; the dead are dropped. -/
theorem waits_told {command : PeerCommand} {f : PeerId → Bool} {ref : ActorRef} {k : BlockKey}
    (hne : command ≠ .cancel k) (h : ps.Waits ref k) :
    (ps.postAll (s.peers.toList.filterMap fun peer =>
      if f peer.1 then some (Effect.tell peer.2 command) else none)).Waits ref k := by
  refine h.postAll ?_ ?_
  · intro ref' id hmem
    obtain ⟨q, ref'', -, he⟩ := TorrentActor.mem_told hmem
    cases he
  · intro hmem
    obtain ⟨q, ref', -, he⟩ := TorrentActor.mem_told hmem
    cases he
    exact hne rfl

theorem carries_lose (index : ℕ) (env : BroadcastEnv) (s : TorrentActor H) :
    Carries (Agreed es) (Agreed es) s (s.broadcastToPeersBestEffort (.have index) env) := by
  refine ⟨_, rfl, fun ps hs => ?_⟩
  obtain ⟨hpieces, hblocks, -⟩ := TorrentActor.foldl_peerDisconnected_eq
    ((s.peers.toList.map Prod.fst).filter env.dead) s.pieceScheduler
  refine hs.mono rfl (congrArg List.length hpieces) ?_
  · intro i j x hx
    obtain ⟨hold, hnot⟩ := PieceScheduler.inFlightAt_of_foldl_peerDisconnected hx
    refine ⟨hold, ?_, ?_, ?_⟩
    · exact fun hmissing => (PieceScheduler.isDuplicateBlock_congr hblocks i j).trans hmissing
    · intro ref hget
      exact ((HashMap.get?_foldl_erase _ _ _).trans (if_neg hnot)).trans hget
    · intro ref info hwaits
      exact waits_told (f := fun id => !env.dead id && env.sent id) (by simp [PeerCommand.cancel])
        hwaits

theorem carries_available (p : PeerId) (bits : List Bool) (s : TorrentActor H) :
    Carries (Agreed es) (Agreed es) s (s.mapScheduler (·.updatePeerAvailability p bits)) :=
  .silent rfl fun _ hs => hs.mono rfl rfl fun _ _ _ hx => ⟨hx, id, fun _ => id, fun _ _ => id⟩

/-- **Every change keeps the invariant.** -/
theorem change {R : ℕ → ℕ → ℕ → Prop} (h : TorrentActor.Change R s t) :
    Carries (Agreed es) (Agreed es) s t := by
  cases h with
  | quiet h =>
      refine .silent h.outbox fun ps hs => hs.mono h.infoDict (by rw [h.scheduler]) ?_
      intro i j x hx
      rw [h.scheduler] at hx ⊢
      rw [h.peers]
      exact ⟨hx, id, fun _ => id, fun _ _ => id⟩
  | request h => exact carries_requesting h
  | available p bits _ => exact carries_available p bits s
  | remove id => exact carries_removePeer es id s
  | lose index env => exact carries_lose index env s
  | record p sent _ _ => exact (carries_recorded es p _ _ _ _ sent s).1
  | @receive index _ =>
      refine ⟨[.pieceReceived index], rfl, fun ps hs => hs.mono rfl rfl fun i j x hx => ?_⟩
      exact ⟨hx, PieceScheduler.isDuplicateBlock_erase rfl, fun _ => id, fun _ _ => id⟩
  | complete index =>
      refine .silent rfl fun ps hs => hs.mono rfl (List.length_set ..) fun i j x hx => ?_
      exact ⟨hx, PieceScheduler.isDuplicateBlock_erase rfl, fun _ => id, fun _ _ => id⟩
  | stop normal =>
      refine ⟨_, rfl, fun ps hs => hs.mono rfl rfl fun i j x hx => ?_⟩
      refine ⟨hx, id, fun _ => id, fun ref info hwaits => hwaits.postAll ?_ ?_⟩
      · simp
      · simp

theorem changes {R : ℕ → ℕ → ℕ → Prop} (h : TorrentActor.Changes R s t) :
    Carries (Agreed es) (Agreed es) s t :=
  .of_changes (fun _ _ => change) h

/-! ### Messages -/

/-- The first steps of a round. -/
theorem carries_next (es : List PeerEvent) (env : StartEnv) (s : TorrentActor H) :
    Carries (Agreed es) (Agreed es) { s with outbox := [] } (s.next env) :=
  changes (R := fun _ _ _ => False) (TorrentActor.changes_next env s)

/-- A farewell is handled. -/
theorem carries_farewell (id : PeerId) (s : TorrentActor H) :
    Carries (Agreed (.killPeer id :: es)) (Agreed es) s (s.removePeer id).1 := by
  have hdrop : ∀ i j x, (s.removePeer id).1.pieceScheduler.inFlightAt i j = some x →
      x.peerId ≠ id := by
    have hsched : (s.removePeer id).1.pieceScheduler = s.pieceScheduler.peerDisconnected id := by
      unfold TorrentActor.removePeer
      split <;> rfl
    intro i j x hx
    rw [hsched, PieceScheduler.inFlightAt_peerDisconnected] at hx
    simpa using (Option.filter_eq_some_iff.1 hx).2
  refine (carries_removePeer (.killPeer id :: es) id s).trans (.silent rfl fun ps hs => ?_)
  exact hs.drop fun i j x info hx _ hsettles => hdrop i j x hx hsettles.symm

/-- A refusal is handled. -/
theorem carries_refusal (p : PeerId) (index offset : ℕ) (s : TorrentActor H) :
    Carries (Agreed (.peerRejectedRequest p index offset :: es)) (Agreed es) s
      (s.mapScheduler (·.releasePeerRequest p index offset)) := by
  refine (carries_requesting (TorrentActor.requesting_releasePeerRequest s p index offset)).trans
    (.silent rfl fun ps hs => hs.drop ?_)
  rintro i j x info hx - ⟨hp, hi, hj⟩
  change (s.pieceScheduler.releasePeerRequest p index offset).inFlightAt i j = some x at hx
  have hj' : offset / blockSize = j := by
    rw [← hj]
    exact Nat.mul_div_cancel j blockSize_pos
  have hi' : index = i := hi.symm
  subst hi' hj'
  rw [PieceScheduler.releasePeerRequest_eq] at hx
  split at hx
  · rw [PieceScheduler.inFlightAt_takeBack, if_pos ⟨rfl, rfl⟩] at hx
    cases hx
  · rename_i hnot
    exact hnot (by simp [hx, hp])

variable [DecidableEq H] {c : Codec H}

/-- A block is handled: it is recorded, or it was not in flight. -/
theorem carries_block (p : PeerId) (index offset : ℕ) (block : Bytes) (env : BlockEnv)
    (s : TorrentActor H)
    (hwrite : (∃ info n, s.Accepts index offset block.length info n) →
      (s.writeBlockToStorage c index offset block env.write).2 = true) :
    Carries (Agreed (.incomingPiece p index offset block :: es)) (Agreed es) s
      (s.handleIncomingPiece c p index offset block env) := by
  by_cases hacc : ∃ info n, s.Accepts index offset block.length info n
  · have hwritten := hwrite hacc
    obtain ⟨info, n, ha⟩ := hacc
    rw [TorrentActor.handleIncomingPiece_of_accepts ha, if_neg (by simp [hwritten])]
    have hquiet := TorrentActor.quiet_writeBlockToStorage c index offset block env.write s
    generalize (s.writeBlockToStorage c index offset block env.write).1 = u at hquiet ⊢
    obtain ⟨hrecord, hgone⟩ := carries_recorded (.incomingPiece p index offset block :: es) p
      index offset block.length n env.cancelSent u
    refine (change (R := fun _ _ _ => False) (.quiet hquiet)).trans (hrecord.trans
      (Carries.trans (J := Agreed es) (.silent rfl fun ps hs => hs.drop ?_)
        (changes (R := fun _ _ _ => False)
          (TorrentActor.changes_acceptBlock c p index offset block.length n env u))))
    rintro i j x info' hx - ⟨-, hkey⟩
    obtain ⟨rfl, rfl⟩ := Info.eq_of_blockKey hkey
    rw [hgone] at hx
    cases hx
  · rw [TorrentActor.handleIncomingPiece_of_not_accepts c s p env hacc]
    refine .silent rfl fun ps hs => hs.drop ?_
    rintro i j x info - hout ⟨-, hkey⟩
    obtain ⟨n, ha⟩ := hout.accepts hkey
    exact hacc ⟨info, n, ha⟩

/-- Metadata arrives: until then nothing is in flight. -/
theorem carries_infoBytes (bytes : Bytes) (env : BroadcastEnv) (s : TorrentActor H) :
    Carries (Agreed es) (Agreed es) s (s.infoBytes c bytes env) := by
  rcases TorrentActor.infoBytes_cases c bytes env s with heq | ⟨info, hnone, -, -, heq⟩
  · rw [heq]
    exact .refl s
  · rw [heq]
    refine ⟨_, rfl, fun ps hs => of_idle ?_ ?_⟩
    · have hsized := hs.sized
      rw [TorrentActor.pieceCount, hnone] at hsized
      exact Or.inr (hsized.elim id id)
    · intro i j
      cases hx : s.pieceScheduler.inFlightAt i j with
      | none => exact hx
      | some x =>
          obtain ⟨info', hout, -⟩ := hs.asked i j x hx
          cases hnone.symm.trans hout.info

omit [DecidableEq H] in
/-- The torrent is paused; what is in flight for a peer that is dropped has to be settled. -/
theorem carries_pause (env : BroadcastEnv) (s : TorrentActor H)
    (hdrop : s.state.isTransferActive = true → ∀ i j x info,
      s.pieceScheduler.inFlightAt i j = some x → s.infoDict = some info →
      s.peers.get? x.peerId ≠ none → env.dead x.peerId = true →
      ∃ e ∈ es, e.Settles x.peerId (info.blockKey i j)) :
    Carries (Agreed es) (Agreed es) s (s.stopTransfer env) := by
  rcases TorrentActor.changes_stopTransfer env s with ⟨hactive, heq⟩ | ⟨-, hquiet⟩
  · rw [heq]
    refine ⟨_, rfl, fun ps hs => ⟨hs.sized, fun i j x hx => ?_⟩⟩
    obtain ⟨info, hout, hsettled⟩ := hs.asked i j x hx
    refine ⟨info, ⟨hout.info, hout.piece, hout.block, hout.missing⟩, ?_⟩
    rcases hsettled with hsettled | ⟨ref, hget, hwaits⟩
    · exact Or.inl hsettled
    · by_cases hdead : env.dead x.peerId = true
      · exact Or.inl (hdrop hactive i j x info hx hout.info (by simp [hget]) hdead)
      · refine Or.inr ⟨ref, ?_, waits_told (by simp [PeerCommand.cancel]) hwaits⟩
        have hnot : x.peerId ∉ (s.peers.toList.map Prod.fst).filter env.dead :=
          fun hmem => hdead (List.mem_filter.1 hmem).2
        exact ((HashMap.get?_foldl_erase _ _ _).trans (if_neg hnot)).trans hget
  · exact change (R := fun _ _ _ => False) (.quiet hquiet)

omit [DecidableEq H] in
/-- A restored torrent has nothing in flight. -/
theorem restoreSnapshot {snap : TorrentSnapshot H} (hv : snap.IsValid c)
    (hown : snap.metainfo = s.metainfo) : Agreed es (s.restoreSnapshot snap) ps := by
  refine of_idle (Or.inl ?_) ?_
  · rw [(TorrentActor.schedulerAgrees_restoreSnapshot hv hown).bits]
    exact TorrentActor.bitfieldFits_restoreSnapshot hv hown
  · intro i j
    cases hx : (s.restoreSnapshot snap).pieceScheduler.inFlightAt i j with
    | none => rfl
    | some x =>
        exact absurd (Or.inl ⟨i, j, x, hx, rfl⟩)
          (TorrentActor.not_mentions_restoredScheduler _ _ _ x.peerId)

/-- **What a peer actor has told is handled.** -/
theorem carries_event (e : PeerEvent) (env : DeliverEnv) (s : TorrentActor H)
    (hwrite : ∀ p index offset block, e = .incomingPiece p index offset block →
      (∃ info n, s.Accepts index offset block.length info n) →
      (s.writeBlockToStorage c index offset block env.block.write).2 = true) :
    Carries (Agreed (e :: es)) (Agreed es) s (s.handle (e.toMessage env : TorrentMessage c)) := by
  have hforget : (∀ id k, ¬ e.Settles id k) → Carries (Agreed (e :: es)) (Agreed es) s s :=
    fun he => .silent rfl fun ps hs => hs.drop fun i j x info _ _ => he x.peerId _
  cases e with
  | peerReady id bits =>
      refine (hforget fun _ _ h => h).trans ?_
      exact (carries_available id _ s).trans (changes (R := fun _ _ _ => False)
        (TorrentActor.changes_peerReady id _ env.alive env.fill s))
  | incomingPiece p index offset block =>
      exact carries_block p index offset block env.block s (hwrite p index offset block rfl)
  | peerRejectedRequest p index offset =>
      exact (carries_refusal p index offset s).trans
        (carries_requesting (TorrentActor.requesting_fillPeerRequestWindow p env.fill _))
  | killPeer id =>
      exact (carries_farewell id s).trans
        (carries_requesting (TorrentActor.requesting_fillAllPeerRequestWindows env.fillAll _))
  | infoBytes bytes =>
      exact (hforget fun _ _ h => h).trans (carries_infoBytes bytes env.broadcast s)

/-- **A message from outside is handled**, other than a connection. -/
theorem carries_outside {m : TorrentMessage c} (hpeer : m.isFromPeer = false)
    (hconnect : ∀ id ref, m ≠ .peerConnected id ref) (hown : s.RestoresOwn m)
    (hdrop : ∀ start stop, m = .setState .paused start stop →
      s.state.isTransferActive = true → ∀ i j x info,
      s.pieceScheduler.inFlightAt i j = some x → s.infoDict = some info →
      s.peers.get? x.peerId ≠ none → stop.dead x.peerId = true →
      ∃ e ∈ es, e.Settles x.peerId (info.blockKey i j)) :
    Carries (Agreed es) (Agreed es) s (s.handle m) := by
  cases m with
  | peerConnected id ref => exact absurd rfl (hconnect id ref)
  | peerReady => cases hpeer
  | infoBytes => cases hpeer
  | setState state start stop =>
      by_cases hpaused : state = .paused
      · subst hpaused
        exact carries_pause stop s (hdrop start stop rfl)
      · exact changes (R := fun _ _ _ => False) (TorrentActor.changes_setState start stop s hpaused)
  | restoreSnapshot v => exact .silent rfl fun ps _ => restoreSnapshot v.valid hown
  | _ => exact changes (TorrentActor.changes_handle s fun h => h)

end Agreed

/-! ### The swarm -/

/-- What is in flight for a registered peer whose actor has not stopped is pending there, or a
request for it is in the mailbox, or something on its way to the torrent settles it. -/
def RequestsAgree (s : Swarm H) : Prop :=
  ∀ i j x ref p, s.torrent.pieceScheduler.inFlightAt i j = some x →
    s.torrent.peers.get? x.peerId = some ref → s.processes ref = some p → p.phase ≠ .stopped →
    ∃ info, s.torrent.infoDict = some info ∧
      (info.blockKey i j ∈ p.actor.pendingBlockRequests ∨
        .need (info.blockKey i j) ∈ p.mailbox ∨
        ∃ m ∈ s.inbox, m.2.Settles x.peerId (info.blockKey i j))

theorem Agreed.requestsAgree {s : Swarm H}
    (h : Agreed (s.inbox.map Prod.snd) s.torrent s.processes) : RequestsAgree s := by
  intro i j x ref p hx hget hp halive
  obtain ⟨info, hout, hsettled⟩ := h.asked i j x hx
  refine ⟨info, hout.info, ?_⟩
  rcases hsettled with ⟨e, he, hsettles⟩ | ⟨ref', hget', hwaits⟩
  · obtain ⟨m, hm, rfl⟩ := List.mem_map.1 he
    exact Or.inr (Or.inr ⟨m, hm, hsettles⟩)
  · cases hget.symm.trans hget'
    rcases PeerCommand.of_mem_foldl_applyTo (hwaits p hp halive) with hpending | hneed
    · exact Or.inl hpending
    · exact Or.inr (Or.inl hneed)

/-- The peer actor waits as before or tells what settles the block, whatever the peer actor does,
unless the remote cancels a pending request. -/
theorem PeerProcess.Acts.view {p q : PeerProcess} {i : PeerInput} {es : List PeerEvent}
    (h : p.Acts i q es) {k : BlockKey} (hk : k ∈ p.view)
    (hcancel : ∀ index offset length env, i = .wire (.cancel index offset length) env →
      (index.toNat, offset.toNat, length.toNat) ∉ p.actor.pendingBlockRequests) :
    k ∈ q.view ∨ ∃ e ∈ es, e.Settles p.actor.id k := by
  cases h with
  | @command env command rest a _ hmail ha =>
      rw [PeerProcess.view, hmail, List.foldl_cons] at hk
      obtain ⟨-, ⟨hpending, -⟩ | ⟨index, start, length, rfl, hpending, htold⟩⟩ :=
        PeerActor.perform_spec env { p.actor with outbox := [] } command
      · left
        rw [PeerProcess.view, ha, hpending]
        exact hk
      · by_cases hkey : k = (index, start, length)
        · right
          rw [ha, htold]
          exact ⟨_, List.mem_singleton_self _, rfl, by rw [hkey], by rw [hkey]⟩
        · left
          rw [PeerProcess.view, ha, hpending]
          refine PeerCommand.foldl_applyTo_imp (fun hmem => ?_) hk
          exact (Finset.mem_insert.1 hmem).resolve_left hkey
  | @wire m env a _ ha =>
      rcases PeerActor.handle_spec ha with
        ⟨index, offset, data, rfl, -, rfl⟩ | ⟨index, offset, length, rfl, rfl⟩ | hb
      · by_cases hkey : k = (index.toNat, offset.toNat, data.length)
        · right
          rw [PeerActor.told_tell]
          exact ⟨_, List.mem_append_right _ (List.mem_singleton_self _), rfl, hkey⟩
        · left
          exact PeerCommand.foldl_applyTo_imp (fun hmem => Finset.mem_erase.2 ⟨hkey, hmem⟩) hk
      · left
        rw [PeerProcess.view]
        simp only
        rw [Finset.erase_eq_of_notMem (hcancel _ _ _ _ rfl)]
        exact hk
      · left
        rw [PeerProcess.view, hb.pending]
        exact hk
  | _ => exact Or.inl hk

variable [DecidableEq H] {c : Codec H}

/-- A block that passes the checks cannot be written. -/
def StorageFails (s : Swarm H) : SwarmInput c → Prop
  | .deliver env => ∃ ref p index offset block,
      s.inbox.head? = some (ref, .incomingPiece p index offset block) ∧
      (∃ info n, (s.torrent.next env.check).Accepts index offset block.length info n) ∧
      ((s.torrent.next env.check).writeBlockToStorage c index offset block env.block.write).2 = false
  | _ => False

/-- A remote cancels a request that its peer actor waits for. -/
def CancelsPending (s : Swarm H) : SwarmInput c → Prop
  | .peer ref (.wire (.cancel index offset length) _) => ∃ p, s.processes ref = some p ∧
      (index.toNat, offset.toNat, length.toNat) ∈ p.actor.pendingBlockRequests
  | _ => False

/-- A pause drops a peer that is found dead and has a block in flight, and nothing on its way
settles that block. -/
def DropsInFlight (s : Swarm H) : SwarmInput c → Prop
  | .outside ⟨check, .setState .paused _ stop⟩ =>
      (s.torrent.next check).state.isTransferActive = true ∧
      ∃ i j x info, (s.torrent.next check).pieceScheduler.inFlightAt i j = some x ∧
        (s.torrent.next check).infoDict = some info ∧ s.torrent.peers.get? x.peerId ≠ none ∧
        stop.dead x.peerId = true ∧ ¬ ∃ m ∈ s.inbox, m.2.Settles x.peerId (info.blockKey i j)
  | _ => False

namespace Agreed

omit [DecidableEq H] in
/-- A connection is registered. -/
theorem connect {u : TorrentActor H} {ps : Processes} {es : List PeerEvent} {id : PeerId}
    {ref : ActorRef} (hhosted : Hosted u ps) (hfresh : ps ref = none)
    (hfree : u.peers.get? id = none) (h : Agreed es u ps) :
    Agreed es ({ u with peers := u.peers.insert id ref }.emit (.spawn ref id))
      (ps.post (.spawn ref id)) := by
  refine ⟨h.sized, fun i j x hx => ?_⟩
  obtain ⟨info, hout, hsettled⟩ := h.asked i j x hx
  refine ⟨info, ⟨hout.info, hout.piece, hout.block, hout.missing⟩, hsettled.imp_right ?_⟩
  rintro ⟨ref', hget, hwaits⟩
  have hid : x.peerId ≠ id := by
    intro heq
    rw [heq, hfree] at hget
    cases hget
  have href : ref' ≠ ref := by
    rintro rfl
    obtain ⟨p, hp, -⟩ := hhosted _ _ hget
    rw [hfresh] at hp
    cases hp
  refine ⟨ref', (HashMap.get?_insert_of_ne hid).trans hget, fun p hp => ?_⟩
  refine hwaits p ?_
  rw [← hp]
  exact (Function.update_of_ne href ..).symm

omit [DecidableEq H] in
/-- A connection comes in. -/
theorem insertPeer {t : TorrentActor H} {ps : Processes} {es : List PeerEvent} (check : StartEnv)
    (id : Option PeerId) {ref : ActorRef} (hhosted : Hosted t ps) (hfresh : ps ref = none)
    (h : Agreed es t ps) :
    Agreed es ((t.next check).insertPeer id ref)
      (ps.postAll ((t.next check).insertPeer id ref).outbox) := by
  obtain ⟨new, hnext, hcarry⟩ := carries_next es check t
  obtain ⟨new', hnext', hspawn⟩ := (TorrentActor.Shrinks.of_changes (R := fun _ _ _ => False)
    (TorrentActor.changes_next check t)).sent
  obtain rfl : new = new' := List.append_cancel_left (hnext.symm.trans hnext')
  have hagreed := hcarry ps h.clear
  rcases TorrentActor.insertPeer_cases id ref (t.next check) with heq | ⟨p, rfl, hfree, heq⟩
  · rw [heq, hnext]
    exact hagreed
  · have hhosted' : Hosted (t.next check) (ps.postAll new) := by
      refine hhosted.shrinks (fun id ref hget => ?_) hspawn
      rwa [TorrentActor.peers_next] at hget
    have hfresh' : ps.postAll new ref = none := Processes.postAll_eq_none hspawn hfresh
    have hout : ({ t.next check with peers := (t.next check).peers.insert p ref }.emit
        (.spawn ref p)).outbox = new ++ [.spawn ref p] :=
      congrArg (· ++ [Effect.spawn ref p]) hnext
    rw [heq, hout, Processes.postAll_append]
    exact hagreed.connect hhosted' hfresh' hfree

omit [DecidableEq H] in
/-- A peer actor takes a step. -/
theorem report {s : Swarm H} {ref : ActorRef} {i : PeerInput} {p q : PeerProcess}
    {es : List PeerEvent} (hhosted : Hosted s.torrent s.processes) (hp : s.processes ref = some p)
    (hacts : p.Acts i q es)
    (hcancel : ∀ index offset length env, i = .wire (.cancel index offset length) env →
      (index.toNat, offset.toNat, length.toNat) ∉ p.actor.pendingBlockRequests)
    (h : Agreed (s.inbox.map Prod.snd) s.torrent s.processes) :
    Agreed ((s.report ref q es).inbox.map Prod.snd) s.torrent (s.report ref q es).processes := by
  have hinbox : (s.report ref q es).inbox.map Prod.snd = s.inbox.map Prod.snd ++ es := by
    simp [Swarm.report, Function.comp_def]
  rw [hinbox]
  refine ⟨h.sized, fun i' j x hx => ?_⟩
  obtain ⟨info, hout, hsettled⟩ := h.asked i' j x hx
  refine ⟨info, hout, ?_⟩
  rcases hsettled with ⟨e, he, hsettles⟩ | ⟨ref', hget, hwaits⟩
  · exact Or.inl ⟨e, List.mem_append_left _ he, hsettles⟩
  · by_cases href : ref' = ref
    · subst href
      obtain ⟨p', hp', hid⟩ := hhosted _ _ hget
      cases hp.symm.trans hp'
      rcases hacts.view (hwaits p hp hacts.alive) hcancel with hview | ⟨e, he, hsettles⟩
      · refine Or.inr ⟨ref', hget, fun q' hq' _ => ?_⟩
        rw [s.processes_report_self] at hq'
        cases hq'
        exact hview
      · rw [hid] at hsettles
        exact Or.inl ⟨e, List.mem_append_right _ he, hsettles⟩
    · refine Or.inr ⟨ref', hget, fun q' hq' => hwaits q' ?_⟩
      rwa [s.processes_report_of_ne q es href] at hq'

/-- **One step of the swarm.** -/
theorem step {s t : Swarm H} {i : SwarmInput c} (hhosted : Hosted s.torrent s.processes)
    (hadmits : s.Admits i) (happly : s.apply i = some t) (hstorage : ¬ StorageFails s i)
    (hcancel : ¬ CancelsPending s i) (hdrop : ¬ DropsInFlight s i)
    (h : Agreed (s.inbox.map Prod.snd) s.torrent s.processes) :
    Agreed (t.inbox.map Prod.snd) t.torrent t.processes := by
  cases Swarm.moves_of_apply happly with
  | outside j hpeer =>
      obtain ⟨check, m⟩ := j
      by_cases hconnect : ∃ id ref, m = .peerConnected id ref
      · obtain ⟨id, ref, rfl⟩ := hconnect
        exact h.insertPeer check id hhosted (hadmits.fresh _ ref rfl)
      · simp only [not_exists] at hconnect
        refine Carries.round ((carries_next _ check s.torrent).trans
          (carries_outside (s := s.torrent.next check) hpeer hconnect ?_ ?_)) h.clear
        · have hown := hadmits.own m rfl
          cases m with
          | restoreSnapshot v => exact hown.trans (TorrentActor.sameData_next check _).metainfo.symm
          | _ => trivial
        · rintro start stop rfl hactive i j x info hx hinfo hget hdead
          by_contra hnone
          rw [TorrentActor.peers_next] at hget
          refine hdrop ⟨hactive, i, j, x, info, hx, hinfo, hget, hdead, ?_⟩
          rintro ⟨m, hm, hsettles⟩
          exact hnone ⟨m.2, List.mem_map_of_mem hm, hsettles⟩
  | @deliver env ref e rest hinbox =>
      rw [hinbox] at h
      refine Carries.round (s := s.torrent) (i := ⟨env.check, e.toMessage env⟩)
        ((carries_next _ env.check s.torrent).trans (carries_event e env _ ?_)) h.clear
      rintro p index offset block rfl hacc
      by_contra hwrite
      refine hstorage ⟨ref, p, index, offset, block, by rw [hinbox]; rfl, hacc, ?_⟩
      simpa using hwrite
  | @peer ref i p q es hp hacts =>
      refine h.report hhosted hp hacts ?_
      rintro index offset length env rfl hmem
      exact hcancel ⟨p, hp, hmem⟩

end Agreed

theorem Agreed.init {s : TorrentActor H} {es : List PeerEvent} {ps : Processes}
    (h : (torrentSystem c).init s) : Agreed es s ps := by
  obtain ⟨args, disk, hstart⟩ := h
  obtain ⟨hfits, hagrees⟩ := TorrentActor.bitfieldFits_onStart hstart
  refine .of_idle (Or.inl ?_) ?_
  · rw [hagrees.bits]
    exact hfits
  · intro i j
    unfold TorrentActor.onStart at hstart
    obtain ⟨hash, -, rfl⟩ := Option.map_eq_some_iff.1 hstart
    rfl

/-- A request leaves the pending ones only with its block. -/
def LeavesWithBlock (p q : PeerProcess) (m : PeerMessages) : Prop :=
  ∀ k ∈ p.actor.pendingBlockRequests, k ∉ q.actor.pendingBlockRequests →
    ∃ index offset data, m = .piece index offset data ∧ k = (index.toNat, offset.toNat, data.length)

/-- **What takes a request away**: its block, or a cancellation from the remote. -/
theorem leavesWithBlock_iff {s : Swarm H} {ref : ActorRef} {p q : PeerProcess} {m : PeerMessages}
    {env : PeerEnv} {es : List PeerEvent} (hp : s.processes ref = some p)
    (hact : p.act (.wire m env) = some (q, es)) :
    LeavesWithBlock p q m ↔ ¬ CancelsPending s (.peer ref (.wire m env) : SwarmInput c) := by
  by_cases hm : ∃ index offset length, m = .cancel index offset length
  · obtain ⟨index, offset, length, rfl⟩ := hm
    have hq : q.actor.pendingBlockRequests =
        p.actor.pendingBlockRequests.erase (index.toNat, offset.toNat, length.toNat) := by
      cases PeerProcess.acts_of_act hact with
      | wire _ ha =>
          cases ha
          rfl
      | panic _ ha => cases ha
    constructor
    · rintro hleaves ⟨p', hp', hmem⟩
      cases hp.symm.trans hp'
      have hgone : (index.toNat, offset.toNat, length.toNat) ∉ q.actor.pendingBlockRequests := by
        rw [hq]
        exact Finset.notMem_erase _ _
      obtain ⟨_, _, _, hpiece, -⟩ := hleaves _ hmem hgone
      cases hpiece
    · intro hnot k hk hgone
      rw [hq, Finset.erase_eq_of_notMem fun hmem => hnot ⟨p, hp, hmem⟩] at hgone
      exact absurd hk hgone
  · have hnot : ¬ CancelsPending s (.peer ref (.wire m env) : SwarmInput c) := by
      intro hcancels
      cases m with
      | cancel index offset length => exact hm ⟨index, offset, length, rfl⟩
      | _ => exact hcancels
    refine iff_of_true ?_ hnot
    intro k hk hgone
    cases PeerProcess.acts_of_act hact with
    | wire _ ha =>
        rcases PeerActor.handle_spec ha with
          ⟨index, offset, data, rfl, -, rfl⟩ | ⟨index, offset, length, rfl, -⟩ | hb
        · refine ⟨index, offset, data, rfl, ?_⟩
          by_contra hne
          exact hgone (Finset.mem_erase.2 ⟨hne, hk⟩)
        · exact absurd ⟨index, offset, length, rfl⟩ hm
        · exact absurd (hb.pending ▸ hk) hgone
    | panic => exact absurd hk hgone

/-- **In every run in which no write fails, no remote cancels a pending request, and no pause drops
a dead peer that still owes a block, torrent and peer actors agree on what is in flight.**  A wire
message takes away no request but with its block, exactly when it does not cancel a pending one. -/
theorem requests_agree {s : Swarm H}
    (h : (swarmSystem c).Reach
      (fun s i => ¬ StorageFails s i ∧ ¬ CancelsPending s i ∧ ¬ DropsInFlight s i) s) :
    RequestsAgree s ∧
    ∀ ref p q m env es, s.processes ref = some p → p.act (.wire m env) = some (q, es) →
      (LeavesWithBlock p q m ↔ ¬ CancelsPending s (.peer ref (.wire m env) : SwarmInput c)) := by
  refine ⟨?_, fun ref p q m env es hp hact => leavesWithBlock_iff (c := c) hp hact⟩
  refine Agreed.requestsAgree (h.strengthen
    (J := fun s : Swarm H => Hosted s.torrent s.processes)
    (I := fun s : Swarm H => Agreed (s.inbox.map Prod.snd) s.torrent s.processes) ?_ ?_ ?_)
  · exact fun s hs => hosted_of_reach hs
  · rintro s ⟨hinit, -⟩
    exact .init hinit
  · rintro s i t hhosted hs ⟨hstorage, hcancel, hdrop⟩ ⟨hadmits, happly⟩
    exact hs.step hhosted hadmits happly hstorage hcancel hdrop

namespace Sample

def peerEnv : PeerEnv := ⟨true, [], some true, some true, none⟩

/-- A peer connects, the torrent starts, and the peer says that it has the piece. -/
def offering : Swarm Bytes :=
  after (after (alone (fromFile .inFile)) [connect peer 0])
    [.outside (input (.setSufficientPeers 1 startEnv)), .peer 0 .start,
      .peer 0 (.wire (.bitfield [true]) peerEnv)]

/-- The torrent hears of it and asks for the block, and the peer actor takes the request. -/
def waiting : Swarm Bytes :=
  after (after (after offering [deliver]) [deliver]) [.peer 0 (.command peerEnv)]

theorem reach_waiting {G : Swarm Bytes → SwarmInput codec → Prop}
    (hconnect : G (alone (fromFile .inFile)) (connect peer 0))
    (hoffering : ∀ s, G s (.outside (input (.setSufficientPeers 1 startEnv))) ∧
      G s (.peer 0 .start) ∧ G s (.peer 0 (.wire (.bitfield [true]) peerEnv)) ∧
      G s (.peer 0 (.command peerEnv)))
    (hdeliver : G offering deliver ∧ G (after offering [deliver]) deliver) :
    (swarmSystem codec).Reach G waiting := by
  have hconnected : (swarmSystem codec).Reach G (after (alone (fromFile .inFile)) [connect peer 0]) :=
    reach_connect (.init ⟨init_fromFile .inFile, rfl, rfl, rfl⟩) hconnect rfl
  have hoffered : (swarmSystem codec).Reach G offering := by
    refine reach_after hconnected (by decide +kernel) ?_
    intro i hi
    simp only [List.mem_cons, List.not_mem_nil, or_false] at hi
    rcases hi with rfl | rfl | rfl
    · exact ⟨⟨nofun, rfl, fun _ => rfl⟩, fun s => (hoffering s).1⟩
    · exact ⟨trivial, fun s => (hoffering s).2.1⟩
    · exact ⟨trivial, fun s => (hoffering s).2.2.1⟩
  have hheard := reach_after_one hoffered plain_deliver hdeliver.1 (by decide +kernel)
  have hasked := reach_after_one hheard plain_deliver hdeliver.2 (by decide +kernel)
  exact reach_after_one hasked trivial (hoffering _).2.2.2 (by decide +kernel)

theorem not_storageFails_offering : ¬ StorageFails offering deliver ∧
    ¬ StorageFails (after offering [deliver]) deliver := by
  have hfirst : offering.inbox.head? = some (0, .peerReady peer []) := by decide +kernel
  have hsecond : (after offering [deliver]).inbox.head? = some (0, .peerReady peer [true]) := by
    decide +kernel
  refine ⟨?_, ?_⟩
  · rintro ⟨ref, p, index, offset, block, hhead, -⟩
    rw [hfirst] at hhead
    cases hhead
  · rintro ⟨ref, p, index, offset, block, hhead, -⟩
    rw [hsecond] at hhead
    cases hhead

/-- The remote cancels a request of ours. -/
def cancelled : Swarm Bytes := after waiting [.peer 0 (.wire (.cancel 0 0 1) peerEnv)]

end Sample

theorem requests_agree_sample :
    (Sample.waiting.torrent.pieceScheduler.inFlightAt 0 0).isSome = true ∧
    RequestsAgree Sample.waiting := by
  refine ⟨by decide +kernel, (requests_agree (c := Sample.codec) (Sample.reach_waiting ?_ ?_ ?_)).1⟩
  · exact ⟨id, id, id⟩
  · exact fun s => ⟨⟨id, id, id⟩, ⟨id, id, id⟩, ⟨id, id, id⟩, ⟨id, id, id⟩⟩
  · obtain ⟨hfirst, hsecond⟩ := Sample.not_storageFails_offering
    exact ⟨⟨hfirst, id, id⟩, ⟨hsecond, id, id⟩⟩

/-- **A remote that cancels makes the peer actor forget what the torrent goes on waiting for.** -/
theorem remote_cancel_loses_request :
    ∃ s : Swarm Bytes, (swarmSystem Sample.codec).Reach (fun s i => ¬ StorageFails s i) s ∧
      ¬ RequestsAgree s := by
  refine ⟨Sample.cancelled, ?_, ?_⟩
  · exact Sample.reach_after_one (Sample.reach_waiting id (fun s => ⟨id, id, id, id⟩)
      Sample.not_storageFails_offering) trivial id (by decide +kernel)
  · intro hagree
    have hflight : Sample.cancelled.torrent.pieceScheduler.inFlightAt 0 0 =
        some ⟨Sample.peer, 0⟩ := by decide +kernel
    have hpeer : Sample.cancelled.torrent.peers.get? Sample.peer = some 0 := by decide +kernel
    have hinbox : Sample.cancelled.inbox = [] := by decide +kernel
    have hprocess : (Sample.cancelled.processes 0).map
        (fun p => (p.phase, p.mailbox, p.actor.pendingBlockRequests)) = some (.running, [], ∅) := by
      decide +kernel
    obtain ⟨p, hp, hfields⟩ := Option.map_eq_some_iff.1 hprocess
    obtain ⟨hphase, hrest⟩ := Prod.mk.inj hfields
    obtain ⟨hmailbox, hpending⟩ := Prod.mk.inj hrest
    obtain ⟨info, -, hmem | hmem | ⟨m, hmem, -⟩⟩ :=
      hagree 0 0 _ 0 p hflight hpeer hp (by rw [hphase]; exact nofun)
    · rw [hpending] at hmem
      cases hmem
    · rw [hmailbox] at hmem
      cases hmem
    · rw [hinbox] at hmem
      cases hmem

end Tortillas
