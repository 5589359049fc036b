/-
**The request window of a peer.**

The torrent bounds the requests of a peer by what its scheduler has in flight for that peer.  The requests themselves
are with the peer actor: some are pending, and some wait in its mailbox.  The bound is one on them as long as every
request of the actor is in flight for it, and then they are different blocks.

The scheduler takes requests back.  When the actor has been told of it before, nothing is wrong.  But a request that
has become stale is released without a word, and so is one that another actor has answered or refused and one that a
snapshot forgets; the actor still has it, and the torrent asks for another block in its place.

Main definitions:

* `PeerProcess.load`, `PeerProcess.requests` — how many requests an actor has, and for which blocks;
* `Holds` — the actor of a peer has the request of a block;
* `Reclaims` — a step takes a request back that the actor of its peer still has;
* `Windowed` — the invariant.

Main results:

* `Windowed.dealings` — the invariant survives dealings that take back nothing an actor still has;
* `window_respected` — **in every run that reclaims nothing, no actor has more requests than the window allows**;
* `window_exceeded` — without that condition one may.
-/

import Tortillas.Dealings
import Tortillas.RequestAgreement
import Tortillas.RequestScan
import Mathlib.Data.Finset.Card

set_option relaxedAutoImplicit false
set_option autoImplicit false

namespace Tortillas

/-! ### The requests of an actor -/

/-- The block of a request: its piece, and its place there. -/
def BlockKey.slot (k : BlockKey) : ℕ × ℕ := (k.1, k.2.1 / blockSize)

namespace PeerCommand

def isNeedPiece : PeerCommand → Bool
  | .needPiece .. => true
  | _ => false

/-- The block a command asks for. -/
def needed : PeerCommand → Option (ℕ × ℕ)
  | .needPiece index start _ => some (index, start / blockSize)
  | _ => none

/-- The command for a request asks for its block. -/
theorem needed_needPiece (r : BlockRequest) :
    (needPiece r.pieceIndex r.offset r.length).needed = some (r.pieceIndex, r.blockIndex) := by
  have hdiv : r.offset / blockSize = r.blockIndex := Nat.mul_div_cancel _ (by decide)
  rw [needed, hdiv]

theorem isSome_needed (command : PeerCommand) : command.needed.isSome = command.isNeedPiece := by
  cases command with
  | _ => rfl

end PeerCommand

namespace PeerProcess

variable {p q : PeerProcess}

/-- The number of requests an actor has: those that are pending, and those in its mailbox. -/
def load (p : PeerProcess) : ℕ := p.actor.pendingBlockRequests.card + p.mailbox.countP PeerCommand.isNeedPiece

/-- The blocks of these requests, as often as they are asked for. -/
def requests (p : PeerProcess) : Multiset (ℕ × ℕ) :=
  p.actor.pendingBlockRequests.val.map BlockKey.slot + p.mailbox.filterMap PeerCommand.needed

theorem card_requests (p : PeerProcess) : Multiset.card p.requests = p.load := by
  have hmail : (p.mailbox.filterMap PeerCommand.needed).length = p.mailbox.countP PeerCommand.isNeedPiece := by
    rw [List.length_filterMap_eq_countP]
    simp only [PeerCommand.isSome_needed]
  rw [requests, Multiset.card_add, Multiset.card_map, Multiset.coe_card, hmail]
  rfl

/-- A command in the mailbox is a request if it asks for a block. -/
theorem requests_append (p : PeerProcess) (command : PeerCommand) :
    ({ p with mailbox := p.mailbox ++ [command] } : PeerProcess).requests =
      p.requests + (command.needed.toList : Multiset (ℕ × ℕ)) := by
  have hone : [command].filterMap PeerCommand.needed = command.needed.toList := by
    cases h : command.needed with
    | none => simp [h]
    | some slot => simp [h]
  rw [requests, requests, List.filterMap_append, hone, ← Multiset.coe_add, ← Multiset.add_assoc]

theorem requests_le_of_pending {s t : Finset BlockKey} (h : s ⊆ t) : s.val.map BlockKey.slot ≤ t.val.map BlockKey.slot :=
  Multiset.map_le_map (Finset.val_le_iff.2 h)

/-- What a command makes of the pending requests: the block it asks for is added at most. -/
theorem applyTo_le (command : PeerCommand) (pending : Finset BlockKey) :
    (command.applyTo pending).val.map BlockKey.slot ≤
      pending.val.map BlockKey.slot + (command.needed.toList : Multiset (ℕ × ℕ)) := by
  cases command with
  | needPiece index start length =>
      have hinsert : (insert (index, start, length) pending).val ≤ (index, start, length) ::ₘ pending.val :=
        Multiset.ndinsert_le.2 ⟨Multiset.le_cons_self _ _, Multiset.mem_cons_self _ _⟩
      refine (Multiset.map_le_map hinsert).trans (le_of_eq ?_)
      rw [Multiset.map_cons, ← Multiset.singleton_add, Multiset.add_comm]
      rfl
  | cancelPiece index start length =>
      refine (requests_le_of_pending (Finset.erase_subset _ _)).trans ?_
      exact Multiset.le_add_right _ _
  | _ => exact Multiset.le_add_right _ _

/-- **A step of an actor adds no request.** -/
theorem Acts.requests_le {i : PeerInput} {es : List PeerEvent} (h : p.Acts i q es) : q.requests ≤ p.requests := by
  cases h with
  | @command env command rest a _ hmail ha =>
      have hrest : (p.mailbox.filterMap PeerCommand.needed : Multiset (ℕ × ℕ)) =
          (command.needed.toList : Multiset (ℕ × ℕ)) + rest.filterMap PeerCommand.needed := by
        rw [hmail]
        cases hneeded : command.needed with
        | none => simp [hneeded]
        | some slot => simp [hneeded]
      have hpending : a.pendingBlockRequests.val.map BlockKey.slot ≤
          p.actor.pendingBlockRequests.val.map BlockKey.slot + (command.needed.toList : Multiset (ℕ × ℕ)) := by
        obtain ⟨-, ⟨hkept, -⟩ | ⟨_, _, _, -, hkept, -⟩⟩ :=
          PeerActor.perform_spec env { p.actor with outbox := [] } command
        · rw [ha, hkept]
          exact applyTo_le command _
        · rw [ha, hkept]
          exact Multiset.le_add_right _ _
      rw [requests, requests, hrest, ← Multiset.add_assoc]
      exact Multiset.add_le_add_right hpending
  | @wire m env a _ ha =>
      have hsub : a.pendingBlockRequests ⊆ p.actor.pendingBlockRequests := by
        rcases PeerActor.handle_spec ha with ⟨_, _, _, -, -, hb⟩ | ⟨_, _, _, -, hb⟩ | hb
        · rw [hb]
          exact Finset.erase_subset _ _
        · rw [hb]
          exact Finset.erase_subset _ _
        · rw [hb.pending]
      exact Multiset.add_le_add_right (requests_le_of_pending hsub)
  | _ => exact le_rfl

end PeerProcess

namespace Processes

variable {ps : Processes} {ref : ActorRef} {q : PeerProcess}

/-- A command that is sent: its actor gets the request, if it asks for a block and the actor has not stopped. -/
theorem requests_post {e : Effect} (hspawn : ∀ ref id, e ≠ .spawn ref id) (hq : ps.post e ref = some q) :
    ∃ p, ps ref = some p ∧ q.phase = p.phase ∧ q.actor = p.actor ∧
      (q = p ∨ ∃ command, e = .tell ref command ∧ p.phase ≠ .stopped ∧
        q.requests = p.requests + (command.needed.toList : Multiset (ℕ × ℕ))) := by
  cases e with
  | tell ref' command =>
      cases hp : ps ref' with
      | none =>
          simp only [post, hp] at hq
          exact ⟨q, hq, rfl, rfl, .inl rfl⟩
      | some p =>
          simp only [post, hp] at hq
          split at hq
          · exact ⟨q, hq, rfl, rfl, .inl rfl⟩
          · rename_i halive
            by_cases href : ref = ref'
            · subst href
              rw [Function.update_self] at hq
              cases hq
              exact ⟨p, hp, rfl, rfl, .inr ⟨command, rfl, halive, p.requests_append command⟩⟩
            · rw [Function.update_of_ne href] at hq
              exact ⟨q, hq, rfl, rfl, .inl rfl⟩
  | spawn ref' id => exact absurd rfl (hspawn ref' id)
  | _ => exact ⟨q, hq, rfl, rfl, .inl rfl⟩

/-- When nothing is asked for, no actor gets a request. -/
theorem requests_postAll {es : List Effect} (hes : ∀ e ∈ es, e.AsksNothing) (hq : ps.postAll es ref = some q) :
    ∃ p, ps ref = some p ∧ q.phase = p.phase ∧ q.actor = p.actor ∧ q.requests = p.requests := by
  induction es generalizing ps with
  | nil => exact ⟨q, hq, rfl, rfl, rfl⟩
  | cons e es ih =>
      have he := hes e (List.mem_cons_self ..)
      obtain ⟨p', hp', hphase', hactor', hrequests'⟩ := ih (fun e' he' => hes e' (List.mem_cons_of_mem _ he')) hq
      have hspawn : ∀ ref id, e ≠ .spawn ref id := by
        rintro ref id rfl
        exact he
      obtain ⟨p, hp, hphase, hactor, hsame | ⟨command, rfl, -, hrequests⟩⟩ := requests_post hspawn hp'
      · exact ⟨p, hp, hphase'.trans hphase, hactor'.trans hactor, by rw [hrequests', hsame]⟩
      · refine ⟨p, hp, hphase'.trans hphase, hactor'.trans hactor, ?_⟩
        cases command with
        | needPiece => exact he.elim
        | _ =>
            rw [hrequests', hrequests]
            exact Multiset.add_zero _

end Processes

/-! ### The invariant -/

/-- The requests are for different blocks, each of which is in flight for the peer. -/
structure Backed (sched : PieceScheduler) (p : PeerId) (requests : Multiset (ℕ × ℕ)) : Prop where
  nodup : requests.Nodup
  inFlight : ∀ slot ∈ requests, ∃ x, sched.inFlightAt slot.1 slot.2 = some x ∧ x.peerId = p

namespace Backed

variable {sched : PieceScheduler} {p : PeerId} {requests : Multiset (ℕ × ℕ)}

/-- They are not more than the scheduler counts. -/
theorem card_le (h : Backed sched p requests) : Multiset.card requests ≤ sched.owned p := by
  have hnodup : requests.toList.Nodup := by
    rw [← Multiset.coe_nodup, Multiset.coe_toList]
    exact h.nodup
  rw [← Multiset.length_toList]
  refine SlotTable.length_le_count hnodup fun slot hslot => ?_
  obtain ⟨x, hx, hp⟩ := h.inFlight slot (Multiset.mem_toList.1 hslot)
  exact ⟨x, hx, by simpa using hp⟩

theorem mono {fewer : Multiset (ℕ × ℕ)} (h : Backed sched p requests) (hle : fewer ≤ requests) :
    Backed sched p fewer :=
  ⟨Multiset.nodup_of_le hle h.nodup, fun slot hslot => h.inFlight slot (Multiset.mem_of_le hle hslot)⟩

end Backed

variable {H : Type}

/-- The actor of a registered peer has the request of a block, and may still act on it. -/
def Holds (t : TorrentActor H) (ps : Processes) (p : PeerId) (i j : ℕ) : Prop :=
  ∃ ref q, t.peers.get? p = some ref ∧ ps ref = some q ∧ q.phase ≠ .stopped ∧ (i, j) ∈ q.requests

/-- When a request is sent, no other request than this one is new to an actor. -/
theorem Holds.of_need {t : TorrentActor H} {ps : Processes} {p : PeerId} {ref : ActorRef} {r : BlockRequest} {i j : ℕ}
    (h : Holds t (ps.post (.tell ref (.needPiece r.pieceIndex r.offset r.length))) p i j) :
    Holds t ps p i j ∨ (i, j) = (r.pieceIndex, r.blockIndex) := by
  obtain ⟨ref', q', hget, hq', halive, hmem⟩ := h
  have hspawn : ∀ ref' id, Effect.tell ref (.needPiece r.pieceIndex r.offset r.length) ≠ .spawn ref' id := nofun
  obtain ⟨q, hq, hphase, -, hsame | ⟨command, htell, -, hrequests⟩⟩ := Processes.requests_post hspawn hq'
  · rw [hsame] at halive hmem
    exact .inl ⟨ref', q, hget, hq, halive, hmem⟩
  · cases htell
    rw [hphase] at halive
    rw [hrequests, PeerCommand.needed_needPiece] at hmem
    rcases Multiset.mem_add.1 hmem with hmem | hmem
    · exact .inl ⟨ref, q, hget, hq, halive, hmem⟩
    · exact .inr (Multiset.mem_singleton.1 hmem)

/-- A block is in flight for a peer whose actor has its request, once what has been sent has arrived. -/
def StillHeld (ps : Processes) (t : TorrentActor H) (i j : ℕ) : Prop :=
  ∃ x, t.pieceScheduler.inFlightAt i j = some x ∧ Holds t (ps.postAll t.outbox) x.peerId i j

/-- The counts are those of the blocks in flight, and within the window.  What the actor of a registered peer has
is in flight for it.  No actor has more than the window allows. -/
structure Windowed (t : TorrentActor H) (ps : Processes) : Prop where
  counted : t.pieceScheduler.Counted
  owned : ∀ p, t.pieceScheduler.owned p ≤ t.window
  hosted : Hosted t ps
  backed : ∀ p ref q, t.peers.get? p = some ref → ps ref = some q → q.phase ≠ .stopped →
    Backed t.pieceScheduler p q.requests
  loads : ∀ ref q, ps ref = some q → q.load ≤ t.window

namespace Windowed

variable {s t : TorrentActor H} {ps : Processes}

/-- Requests are lost that no actor still has. -/
theorem loses {S : TorrentActor H → ℕ → ℕ → Prop} (hS : ∀ i j, S s i j → ¬ ∃ x,
      s.pieceScheduler.inFlightAt i j = some x ∧ Holds s ps x.peerId i j)
    (hlose : TorrentActor.Loses S s t) {new : List Effect} (hout : t.outbox = s.outbox ++ new) (h : Windowed s ps) :
    Windowed t (ps.postAll new) := by
  obtain ⟨new', hout', hnew⟩ := hlose.sent
  obtain rfl : new = new' := List.append_cancel_left (hout.symm.trans hout')
  have hwindow : t.window = s.window := by rw [TorrentActor.window, TorrentActor.window, hlose.settings]
  refine ⟨hlose.counted h.counted, fun p => ?_, h.hosted.shrinks hlose.peers ?_, ?_, ?_⟩
  · rw [hwindow]
    exact (hlose.owned p).trans (h.owned p)
  · exact fun ref id hmem => hnew _ hmem
  · intro p ref q' hget hq' halive
    obtain ⟨q, hq, hphase, -, hrequests⟩ := Processes.requests_postAll hnew hq'
    rw [hphase] at halive
    have hold := hlose.peers p ref hget
    have hbacked := h.backed p ref q hold hq halive
    rw [hrequests]
    refine ⟨hbacked.nodup, fun slot hslot => ?_⟩
    obtain ⟨x, hx, rfl⟩ := hbacked.inFlight slot hslot
    rcases hlose.lost slot.1 slot.2 x hx (by rw [hget]; exact Option.some_ne_none ref) with hkept | hlost
    · exact ⟨x, hkept, rfl⟩
    · exact absurd ⟨x, hx, ref, q, hold, hq, halive, hslot⟩ (hS slot.1 slot.2 hlost)
  · intro ref q' hq'
    obtain ⟨q, hq, -, -, hrequests⟩ := Processes.requests_postAll hnew hq'
    rw [hwindow, ← q'.card_requests, hrequests, q.card_requests]
    exact h.loads ref q hq

/-- The same within a round. -/
theorem loses_round {S : TorrentActor H → ℕ → ℕ → Prop} (hS : ∀ i j, S s i j → ¬ StillHeld ps s i j)
    (hlose : TorrentActor.Loses S s t) (h : Windowed s (ps.postAll s.outbox)) : Windowed t (ps.postAll t.outbox) := by
  obtain ⟨new, hout, -⟩ := hlose.sent
  rw [hout, Processes.postAll_append]
  exact h.loses hS hlose hout

/-- A peer is asked for a block that is in flight for it, and whose request its actor does not have. -/
theorem need {p : PeerId} {ref : ActorRef} {r : BlockRequest} (hget : s.peers.get? p = some ref)
    (hflight : ∃ x, s.pieceScheduler.inFlightAt r.pieceIndex r.blockIndex = some x ∧ x.peerId = p)
    (hnew : ¬ Holds s ps p r.pieceIndex r.blockIndex) (h : Windowed s ps) :
    Windowed (s.emit (.tell ref (.needPiece r.pieceIndex r.offset r.length)))
      (ps.post (.tell ref (.needPiece r.pieceIndex r.offset r.length))) := by
  have hspawn : ∀ ref' id, Effect.tell ref (.needPiece r.pieceIndex r.offset r.length) ≠ .spawn ref' id := nofun
  have hslot := PeerCommand.needed_needPiece r
  -- the actor has the new request beside those it had
  have hasked : ∀ q, ps ref = some q → q.phase ≠ .stopped →
      Backed s.pieceScheduler p (q.requests + {(r.pieceIndex, r.blockIndex)}) := by
    intro q hq halive
    have hbacked := h.backed p ref q hget hq halive
    refine ⟨?_, ?_⟩
    · rw [Multiset.add_comm, Multiset.singleton_add, Multiset.nodup_cons]
      exact ⟨fun hmem => hnew ⟨ref, q, hget, hq, halive, hmem⟩, hbacked.nodup⟩
    · intro slot hmem
      rcases Multiset.mem_add.1 hmem with hmem | hmem
      · exact hbacked.inFlight slot hmem
      · rw [Multiset.mem_singleton.1 hmem]
        exact hflight
  refine ⟨h.counted, h.owned, ?_, ?_, ?_⟩
  · have hnone : ∀ ref' id, Effect.spawn ref' id ∉ [Effect.tell ref (.needPiece r.pieceIndex r.offset r.length)] :=
      fun ref' id hmem => hspawn ref' id (List.mem_singleton.1 hmem).symm
    exact h.hosted.shrinks (fun _ _ hget => hget) hnone
  · intro p' ref' q' hget' hq' halive
    obtain ⟨q, hq, hphase, -, hsame | ⟨command, htell, -, hrequests⟩⟩ := Processes.requests_post hspawn hq'
    · rw [hsame]
      rw [hsame] at halive
      exact h.backed p' ref' q hget' hq halive
    · cases htell
      -- an actor has one id
      obtain ⟨_, hq₁, hid₁⟩ := h.hosted p ref hget
      obtain ⟨_, hq₂, hid₂⟩ := h.hosted p' ref hget'
      cases hq₁.symm.trans hq
      cases hq₂.symm.trans hq
      obtain rfl : p = p' := hid₁.symm.trans hid₂
      rw [hrequests, hslot]
      rw [hphase] at halive
      exact hasked q hq halive
  · intro ref' q' hq'
    obtain ⟨q, hq, hphase, -, hsame | ⟨command, htell, halive, hrequests⟩⟩ := Processes.requests_post hspawn hq'
    · rw [hsame]
      exact h.loads ref' q hq
    · cases htell
      rw [← q'.card_requests, hrequests, hslot]
      exact (hasked q hq halive).card_le.trans (h.owned p)

/-- Another block stays in flight. -/
theorem inFlightAt_releasePeerRequest {sched : PieceScheduler} {p : PeerId} {i j index offset : ℕ}
    (hne : (index, offset / blockSize) ≠ (i, j)) :
    (sched.releasePeerRequest p index offset).inFlightAt i j = sched.inFlightAt i j := by
  rw [PieceScheduler.releasePeerRequest_eq]
  split
  · rw [PieceScheduler.inFlightAt_takeBack, if_neg]
    rintro ⟨rfl, rfl⟩
    exact hne rfl
  · rfl

/-- The loop that sends requests for blocks that are in flight for the peer, and whose requests its actor does not
have. -/
theorem sendRequests {p : PeerId} {ref : ActorRef} (sent : ℕ → Bool) {rs : List BlockRequest} (n : ℕ)
    (hget : s.peers.get? p = some ref) (hdistinct : rs.Pairwise PieceScheduler.OtherBlock)
    (hflight : ∀ r ∈ rs, ∃ x, s.pieceScheduler.inFlightAt r.pieceIndex r.blockIndex = some x ∧ x.peerId = p)
    (hnew : ∀ r ∈ rs, ¬ Holds s (ps.postAll s.outbox) p r.pieceIndex r.blockIndex)
    (h : Windowed s (ps.postAll s.outbox)) :
    Windowed (s.sendRequests p ref sent rs n) (ps.postAll (s.sendRequests p ref sent rs n).outbox) := by
  induction rs generalizing s n with
  | nil => exact h
  | cons r rs ih =>
      obtain ⟨hother, hdistinct⟩ := List.pairwise_cons.1 hdistinct
      have hheld := hnew r (List.mem_cons_self ..)
      obtain ⟨x, hx, hxp⟩ := hflight r (List.mem_cons_self ..)
      rw [TorrentActor.sendRequests]
      by_cases hok : sent n = true
      · rw [if_pos hok]
        have hposted : ps.postAll (s.emit (.tell ref (.needPiece r.pieceIndex r.offset r.length))).outbox =
            (ps.postAll s.outbox).post (.tell ref (.needPiece r.pieceIndex r.offset r.length)) :=
          Processes.postAll_append ..
        refine ih (n + 1) hget hdistinct (fun r' hr' => hflight r' (List.mem_cons_of_mem _ hr')) ?_ ?_
        · intro r' hr' hholds
          rw [hposted] at hholds
          rcases Holds.of_need hholds with hholds | hsame
          · exact hnew r' (List.mem_cons_of_mem _ hr') hholds
          · exact hother r' hr' hsame.symm
        · rw [hposted]
          exact h.need hget ⟨x, hx, hxp⟩ hheld
      · rw [if_neg hok]
        have hdiv : r.offset / blockSize = r.blockIndex := Nat.mul_div_cancel _ (by decide)
        have hlose : TorrentActor.Loses (fun u i j => ¬ StillHeld ps u i j) s
            (s.mapScheduler (·.releasePeerRequest p r.pieceIndex r.offset)) := by
          refine .releasePeerRequest p r.pieceIndex r.offset ?_
          rintro y hy hyp ⟨z, hz, hholds⟩
          cases hy.symm.trans hz
          rw [hyp, hdiv] at hholds
          exact hheld hholds
        refine ih (n + 1) hget hdistinct ?_ (fun r' hr' => hnew r' (List.mem_cons_of_mem _ hr'))
          (h.loses_round (fun _ _ hS => hS) hlose)
        intro r' hr'
        obtain ⟨y, hy, hyp⟩ := hflight r' (List.mem_cons_of_mem _ hr')
        refine ⟨y, ?_, hyp⟩
        change (s.pieceScheduler.releasePeerRequest p r.pieceIndex r.offset).inFlightAt _ _ = _
        rw [inFlightAt_releasePeerRequest, hy]
        rw [hdiv]
        exact hother r' hr'

/-- **The window of a peer is filled.** -/
theorem fillPeerRequestWindowTo (p : PeerId) {target : ℕ} (env : FillEnv) (htarget : target ≤ s.window)
    (h : Windowed s (ps.postAll s.outbox)) :
    Windowed (s.fillPeerRequestWindowTo p target env) (ps.postAll (s.fillPeerRequestWindowTo p target env).outbox) := by
  unfold TorrentActor.fillPeerRequestWindowTo
  split
  · exact h
  · cases hinfo : s.infoDict with
    | none => exact h
    | some info =>
        cases hget : s.peers.get? p with
        | none => exact h
        | some ref =>
            dsimp only
            split
            · exact h
            · have hcurrent : s.pieceScheduler.inFlightForPeer p = s.pieceScheduler.owned p := by
                rw [PieceScheduler.inFlightForPeer, h.counted p, PieceScheduler.stored_getD_zero]
              rw [hcurrent]
              have hassign := PieceScheduler.requestsForPeer_assigns p info.pieceLength.toNat info.totalLength env.clock
                (target - s.pieceScheduler.owned p) s.pieceScheduler
              have hdistinct := (PieceScheduler.requestsForPeer_distinct p info.pieceLength.toNat info.totalLength
                env.clock (target - s.pieceScheduler.owned p) s.pieceScheduler).1
              have hlength := PieceScheduler.length_requestsForPeer_le p info.pieceLength.toNat info.totalLength
                env.clock (target - s.pieceScheduler.owned p) s.pieceScheduler
              obtain ⟨hcounted, howned⟩ := h.counted.requestsForPeer p info.pieceLength.toNat info.totalLength env.clock
                (target - s.pieceScheduler.owned p)
              generalize s.pieceScheduler.requestsForPeer p info.pieceLength.toNat info.totalLength env.clock
                (target - s.pieceScheduler.owned p) = assigned at *
              refine sendRequests (s := { s with pieceScheduler := assigned.1 }) env.sent 0 hget hdistinct
                (fun r hr => (hassign.requests r hr).2) ?_ ⟨hcounted, ?_, h.hosted, ?_, h.loads⟩
              · -- what the actor has is in flight already, and the new requests are for other blocks
                rintro r hr ⟨ref', q, hget', hq, halive, hmem⟩
                obtain ⟨x, hx, -⟩ := (h.backed p ref' q hget' hq halive).inFlight _ hmem
                rw [(hassign.requests r hr).1.fresh] at hx
                cases hx
              · intro q
                change assigned.1.owned q ≤ s.window
                have hq := h.owned q
                rw [howned q]
                split
                · rename_i heq
                  subst heq
                  omega
                · exact hq
              · intro p' ref' q hget' hq halive
                have hbacked := h.backed p' ref' q hget' hq halive
                refine ⟨hbacked.nodup, fun slot hslot => ?_⟩
                obtain ⟨x, hx, hxp⟩ := hbacked.inFlight slot hslot
                exact ⟨x, hassign.kept _ _ _ hx, hxp⟩

/-- **Dealings that take back nothing an actor still has keep the invariant.** -/
theorem dealings (hdeal : TorrentActor.Dealings (fun u i j => ¬ StillHeld ps u i j) s t)
    (h : Windowed s (ps.postAll s.outbox)) : Windowed t (ps.postAll t.outbox) := by
  induction hdeal with
  | refl => exact h
  | tail _ hlast ih =>
      cases hlast with
      | loses hlose => exact ih.loses_round (fun _ _ hS => hS) hlose
      | fill p env htarget => exact ih.fillPeerRequestWindowTo p env htarget

/-- Nothing is in flight, and no actor that may still act has a request. -/
theorem of_idle (hflight : t.pieceScheduler.inFlight = ∅) (hcounts : t.pieceScheduler.inFlightPerPeer = ∅)
    (hhosted : Hosted t ps)
    (hrequests : ∀ p ref q, t.peers.get? p = some ref → ps ref = some q → q.phase ≠ .stopped → q.requests = 0)
    (hloads : ∀ ref q, ps ref = some q → q.load ≤ t.window) : Windowed t ps := by
  have howned : ∀ p, t.pieceScheduler.owned p = 0 := by
    intro p
    rw [PieceScheduler.owned, hflight]
    rfl
  refine ⟨fun p => ?_, fun p => ?_, hhosted, fun p ref q hget hq halive => ?_, hloads⟩
  · rw [hcounts, howned]
    rfl
  · rw [howned]
    exact Nat.zero_le _
  · rw [hrequests p ref q hget hq halive]
    exact ⟨Multiset.nodup_zero, fun slot hslot => absurd hslot (Multiset.notMem_zero slot)⟩

/-- A snapshot is restored while no actor has a request for what is in flight. -/
theorem restoreSnapshot (snap : TorrentSnapshot H) (hheld : ∀ i j x, s.pieceScheduler.inFlightAt i j = some x →
      ¬ Holds s ps x.peerId i j) (h : Windowed s ps) : Windowed (s.restoreSnapshot snap) ps := by
  obtain ⟨hflight, hcounts⟩ := TorrentActor.idle_restoredScheduler
    (({ s with resolvedMagnetInfo := snap.resolvedMagnetInfo }.infoDict.map Info.pieceCount).getD 0) snap.bitfield
    snap.blockMap
  refine of_idle hflight hcounts h.hosted ?_ h.loads
  intro p ref q hget hq halive
  refine Multiset.eq_zero_of_forall_notMem fun slot hslot => ?_
  obtain ⟨x, hx, rfl⟩ := (h.backed p ref q hget hq halive).inFlight slot hslot
  exact hheld _ _ x hx ⟨ref, q, hget, hq, halive, hslot⟩

/-- A connection is registered. -/
theorem connect {id : PeerId} {ref : ActorRef} (hfresh : ps ref = none) (h : Windowed s ps) :
    Windowed ({ s with peers := s.peers.insert id ref }.emit (.spawn ref id)) (ps.post (.spawn ref id)) := by
  have hnew : ps.post (.spawn ref id) = Function.update ps ref (some ⟨PeerActor.new id, [], .starting⟩) := rfl
  have hpeers : ∀ id', ({ s with peers := s.peers.insert id ref }.emit (.spawn ref id)).peers.get? id' =
      if id' = id then some ref else s.peers.get? id' := fun id' => HashMap.get?_insert ..
  -- the actors of the other peers are other actors
  have hother : ∀ id' ref', s.peers.get? id' = some ref' → ref' ≠ ref := by
    rintro id' ref' hget rfl
    obtain ⟨q, hq, -⟩ := h.hosted _ _ hget
    rw [hfresh] at hq
    cases hq
  refine ⟨h.counted, h.owned, ?_, ?_, ?_⟩
  · intro id' ref' hget
    rw [hpeers] at hget
    rw [hnew]
    split at hget
    · rename_i heq
      cases hget
      exact ⟨_, Function.update_self .., heq.symm⟩
    · rw [Function.update_of_ne (hother id' ref' hget)]
      exact h.hosted id' ref' hget
  · intro id' ref' q hget hq halive
    rw [hpeers] at hget
    rw [hnew] at hq
    split at hget
    · cases hget
      rw [Function.update_self] at hq
      cases hq
      exact ⟨Multiset.nodup_zero, fun slot hslot => absurd hslot (Multiset.notMem_zero slot)⟩
    · rw [Function.update_of_ne (hother id' ref' hget)] at hq
      exact h.backed id' ref' q hget hq halive
  · intro ref' q hq
    rw [hnew] at hq
    by_cases href : ref' = ref
    · subst href
      rw [Function.update_self] at hq
      cases hq
      exact Nat.zero_le _
    · rw [Function.update_of_ne href] at hq
      exact h.loads ref' q hq

/-- An actor takes a step. -/
theorem act {ref : ActorRef} {i : PeerInput} {p q : PeerProcess} {es : List PeerEvent} (hp : ps ref = some p)
    (hacts : p.Acts i q es) (h : Windowed t ps) : Windowed t (Function.update ps ref (some q)) := by
  refine ⟨h.counted, h.owned, ?_, ?_, ?_⟩
  · intro id ref' hget
    obtain ⟨p', hp', hid⟩ := h.hosted id ref' hget
    by_cases href : ref' = ref
    · subst href
      cases hp.symm.trans hp'
      exact ⟨q, Function.update_self .., hacts.id.trans hid⟩
    · exact ⟨p', by rw [Function.update_of_ne href, hp'], hid⟩
  · intro id ref' q' hget hq' halive
    by_cases href : ref' = ref
    · subst href
      rw [Function.update_self] at hq'
      cases hq'
      exact (h.backed id ref' p hget hp hacts.alive).mono hacts.requests_le
    · rw [Function.update_of_ne href] at hq'
      exact h.backed id ref' q' hget hq' halive
  · intro ref' q' hq'
    by_cases href : ref' = ref
    · subst href
      rw [Function.update_self] at hq'
      cases hq'
      have hle := Multiset.card_le_card hacts.requests_le
      rw [q.card_requests, p.card_requests] at hle
      exact hle.trans (h.loads ref' p hp)
    · rw [Function.update_of_ne href] at hq'
      exact h.loads ref' q' hq'

end Windowed

/-! ### Runs -/

variable [DecidableEq H] {c : Codec H}

/-- The torrent looks for stale requests there and then, and finds one that the actor of its peer still has. -/
def ExpiresHeld (ps : Processes) (point : TorrentActor H × ℕ) : Prop :=
  ∃ i j x, point.1.pieceScheduler.inFlightAt i j = some x ∧
    point.1.settings.peerRequestTimeout ≤ point.2 - x.requestedAt ∧
    Holds point.1 (ps.postAll point.1.outbox) x.peerId i j

/-- The handler of a message takes back a request that the actor of its peer still has: the block comes from another
actor, or from this one after it was asked again, or such an actor refuses it, or a snapshot is restored. -/
def MessageReclaims (ps : Processes) (t : TorrentActor H) : TorrentMessage c → Prop
  | .incomingPiece _ index offset block env =>
      (∃ info n, t.Accepts index offset block.length info n) ∧
      (t.writeBlockToStorage c index offset block env.write).2 = true ∧ StillHeld ps t index (offset / blockSize)
  | .peerRejectedRequest p index offset _ =>
      ∃ x, t.pieceScheduler.inFlightAt index (offset / blockSize) = some x ∧ x.peerId = p ∧
        Holds t (ps.postAll t.outbox) p index (offset / blockSize)
  | .restoreSnapshot _ => ∃ i j, StillHeld ps t i j
  | _ => False

/-- A round of the torrent takes back a request that the actor of its peer still has. -/
def RoundReclaims (ps : Processes) (t : TorrentActor H) (i : TorrentActor.Input c) : Prop :=
  (∃ point ∈ t.rechokes i, ExpiresHeld ps point) ∨ MessageReclaims ps (t.next i.check) i.message

/-- The round the torrent makes on an input. -/
def Swarm.nextInput (s : Swarm H) : SwarmInput c → Option (TorrentActor.Input c)
  | .outside i => some i
  | .deliver env => s.inbox.head?.map fun m => ⟨env.check, m.2.toMessage env⟩
  | .peer .. => none

/-- **A step takes back a request that the actor of its peer still has.** -/
def Reclaims (s : Swarm H) (i : SwarmInput c) : Prop :=
  ∃ j, s.nextInput i = some j ∧ RoundReclaims s.processes s.torrent j

namespace Windowed

variable {s : TorrentActor H} {ps : Processes}

/-- The check before a message. -/
theorem next {i : TorrentActor.Input c} (hreclaims : ¬ RoundReclaims ps s i) (h : Windowed s ps) :
    Windowed (s.next i.check) (ps.postAll (s.next i.check).outbox) := by
  have hclear : Windowed { s with outbox := [] } (ps.postAll []) :=
    ⟨h.counted, h.owned, h.hosted, h.backed, h.loads⟩
  refine hclear.dealings (TorrentActor.dealings_next ?_)
  rintro point hpoint i' j x hx hstale ⟨y, hy, hholds⟩
  cases hx.symm.trans hy
  exact hreclaims (.inl ⟨point, List.mem_append_left _ hpoint, i', j, x, hx, hstale, hholds⟩)

omit [DecidableEq H] in
/-- A connection comes in. -/
theorem insertPeer {check : StartEnv} (id : Option PeerId) {ref : ActorRef} (hfresh : ps ref = none)
    (h : Windowed (s.next check) (ps.postAll (s.next check).outbox)) :
    Windowed ((s.next check).insertPeer id ref) (ps.postAll ((s.next check).insertPeer id ref).outbox) := by
  obtain ⟨new, hnext, hspawn⟩ := (TorrentActor.Shrinks.of_changes (R := fun _ _ _ => False)
    (TorrentActor.changes_next check s)).sent
  rcases TorrentActor.insertPeer_cases id ref (s.next check) with heq | ⟨p, rfl, -, heq⟩
  · rw [heq]
    exact h
  · have hfresh' : ps.postAll (s.next check).outbox ref = none := by
      rw [hnext]
      exact Processes.postAll_eq_none hspawn hfresh
    have hout : ({ s.next check with peers := (s.next check).peers.insert p ref }.emit (.spawn ref p)).outbox =
        (s.next check).outbox ++ [.spawn ref p] := rfl
    rw [heq, hout, Processes.postAll_append]
    exact h.connect hfresh'

/-- **A round of the torrent that reclaims nothing.** -/
theorem round {i : TorrentActor.Input c}
    (hfresh : ∀ id ref, i.message = .peerConnected id ref → ps ref = none) (hreclaims : ¬ RoundReclaims ps s i)
    (h : Windowed s ps) : Windowed (s.step i) (ps.postAll (s.step i).outbox) := by
  have hnext := h.next hreclaims
  have hmessage : ¬ MessageReclaims ps (s.next i.check) i.message := fun hm => hreclaims (.inr hm)
  by_cases hconnect : ∃ id ref, i.message = .peerConnected id ref
  · obtain ⟨id, ref, hm⟩ := hconnect
    rw [TorrentActor.step, hm]
    exact hnext.insertPeer id (hfresh id ref hm)
  by_cases hrestore : ∃ v, i.message = .restoreSnapshot v
  · obtain ⟨v, hm⟩ := hrestore
    rw [hm] at hmessage
    rw [TorrentActor.step, hm]
    exact hnext.restoreSnapshot v.snapshot fun i j x hx hholds => hmessage ⟨i, j, x, hx, hholds⟩
  simp only [not_exists] at hconnect hrestore
  refine hnext.dealings (TorrentActor.dealings_handle hconnect hrestore ?_ ?_ ?_)
  · intro p index offset block env hm hacc hwrite hheld
    rw [hm] at hmessage
    rw [TorrentActor.writeBlockToStorage_eq] at hheld
    exact hmessage ⟨hacc, hwrite, hheld⟩
  · rintro p index offset env hm x hx hp ⟨y, hy, hholds⟩
    cases hx.symm.trans hy
    rw [hm] at hmessage
    rw [hp] at hholds
    exact hmessage ⟨x, hx, hp, hholds⟩
  · rintro point hpoint i' j x hx hstale ⟨y, hy, hholds⟩
    cases hx.symm.trans hy
    exact hreclaims (.inl ⟨point, List.mem_append_right _ hpoint, i', j, x, hx, hstale, hholds⟩)

theorem init (h : (torrentSystem c).init s) : Windowed s fun _ => none := by
  obtain ⟨args, disk, hstart⟩ := h
  unfold TorrentActor.onStart at hstart
  obtain ⟨hash, -, rfl⟩ := Option.map_eq_some_iff.1 hstart
  exact of_idle rfl rfl (fun _ _ hget => nomatch hget) (fun _ _ _ _ hq => nomatch hq) (fun _ _ hq => nomatch hq)

/-- **One step of the swarm.** -/
theorem step {s t : Swarm H} {i : SwarmInput c} (hadmits : s.Admits i) (happly : s.apply i = some t)
    (hreclaims : ¬ Reclaims s i) (h : Windowed s.torrent s.processes) : Windowed t.torrent t.processes := by
  cases Swarm.moves_of_apply happly with
  | outside j hpeer =>
      refine h.round (fun id ref hm => hadmits.fresh id ref (congrArg some hm)) fun hround => ?_
      exact hreclaims ⟨j, rfl, hround⟩
  | @deliver env ref e rest hinbox =>
      refine h.round ?_ fun hround => hreclaims ⟨⟨env.check, e.toMessage env⟩, ?_, hround⟩
      · intro id ref' hm
        cases e with
        | _ => cases hm
      · simp [Swarm.nextInput, hinbox]
  | peer hp hacts => exact h.act hp hacts

end Windowed

/-- **In every run in which no step takes back a request that the actor of its peer still has, no peer actor has more
requests, pending and in its mailbox together, than the larger window allows.** -/
theorem window_respected {s : Swarm H} (h : (swarmSystem c).Reach (fun s i => ¬ Reclaims s i) s) :
    ∀ ref p, s.processes ref = some p →
      p.actor.pendingBlockRequests.card + p.mailbox.countP PeerCommand.isNeedPiece ≤
        max s.torrent.settings.initialPeerRequestWindow s.torrent.settings.maxInFlightPerPeer := by
  have hwindowed : Windowed s.torrent s.processes := by
    refine h.invariant (I := fun s : Swarm H => Windowed s.torrent s.processes) ?_ ?_
    · rintro s ⟨hinit, hnone, -⟩
      rw [hnone]
      exact .init hinit
    · rintro s i t hs hreclaims ⟨hadmits, happly⟩
      exact hs.step hadmits happly hreclaims
  exact hwindowed.loads

namespace Sample

/-- A torrent of two pieces that asks a peer for one block at a time. -/
def narrow : TorrentActor Bytes :=
  { fromInfo { info with pieces := [[7], [8]], file := .single 2 none } .inFile with settings := ⟨1, 1, 15, 6, true⟩ }

theorem init_narrow : (torrentSystem codec).init narrow :=
  ⟨⟨.torrent { info with pieces := [[7], [8]], file := .single 2 none }, .inFile, none, none, some [['o']],
    ⟨1, 1, 15, 6, true⟩⟩, fun _ => none, rfl⟩

/-- A peer connects, the torrent starts, and the peer says that it has both pieces. -/
def narrowJoined : Swarm Bytes := after (alone narrow) [connect peer 0]

def narrowStarted : Swarm Bytes := after narrowJoined [.outside (input (.setSufficientPeers 1 startEnv))]

def narrowOffered : Swarm Bytes :=
  after narrowStarted [.peer 0 .start, .peer 0 (.wire (.bitfield [true, true]) peerEnv)]

/-- The torrent hears of it and asks for the first block, which the peer actor waits for. -/
def narrowWaiting : Swarm Bytes :=
  after (after (after narrowOffered [deliver]) [deliver]) [.peer 0 (.command peerEnv)]

theorem reach_narrowWaiting {G : Swarm Bytes → SwarmInput codec → Prop} (hpeer : ∀ s ref i, G s (.peer ref i))
    (hconnect : G (alone narrow) (connect peer 0))
    (hstart : G narrowJoined (.outside (input (.setSufficientPeers 1 startEnv))))
    (hdeliver : G narrowOffered deliver ∧ G (after narrowOffered [deliver]) deliver) :
    (swarmSystem codec).Reach G narrowWaiting := by
  have hjoined : (swarmSystem codec).Reach G narrowJoined :=
    reach_connect (.init ⟨init_narrow, rfl, rfl, rfl⟩) hconnect rfl
  have hstarted : (swarmSystem codec).Reach G narrowStarted :=
    reach_after_one hjoined ⟨nofun, rfl, fun _ => rfl⟩ hstart (by decide +kernel)
  have hoffered : (swarmSystem codec).Reach G narrowOffered := by
    refine reach_after hstarted (by decide +kernel) ?_
    intro i hi
    simp only [List.mem_cons, List.not_mem_nil, or_false] at hi
    rcases hi with rfl | rfl
    · exact ⟨trivial, fun s => hpeer s _ _⟩
    · exact ⟨trivial, fun s => hpeer s _ _⟩
  have hheard := reach_after_one hoffered plain_deliver hdeliver.1 (by decide +kernel)
  have hasked := reach_after_one hheard plain_deliver hdeliver.2 (by decide +kernel)
  exact reach_after_one hasked trivial (hpeer _ _ _) (by decide +kernel)

/-- Nothing is taken back before its time is up, unless the message does it. -/
theorem not_reclaims {s : Swarm Bytes} {i : SwarmInput codec} {j : TorrentActor.Input codec}
    (hj : s.nextInput i = some j)
    (hearly : ∀ point ∈ s.torrent.rechokes j, point.2 < point.1.settings.peerRequestTimeout)
    (hmessage : ¬ MessageReclaims s.processes (s.torrent.next j.check) j.message) : ¬ Reclaims s i := by
  rintro ⟨j', hj', ⟨point, hpoint, i, k, x, -, hstale, -⟩ | hm⟩
  · cases hj.symm.trans hj'
    have hbefore := hearly point hpoint
    omega
  · cases hj.symm.trans hj'
    exact hmessage hm

theorem nextInput_deliver {s : Swarm Bytes} {ref : ActorRef} {e : PeerEvent} (h : s.inbox.head? = some (ref, e)) :
    s.nextInput deliver = some ⟨startEnv, e.toMessage deliverEnv⟩ := by
  rw [deliver, Swarm.nextInput, h]
  rfl

/-- Fifteen seconds later the peers are rechoked, and the peer actor takes what it is asked for. -/
def narrowExpired : Swarm Bytes :=
  after narrowWaiting [.outside (input (.rechoke ⟨15, [], fun _ => true, [peer], fun _ => fillEnv⟩)),
    .peer 0 (.command peerEnv)]

end Sample

/-- The peer actor waits for one block, as many as the window allows. -/
theorem window_respected_sample :
    (Sample.narrowWaiting.processes 0).map (fun p => p.load) = some 1 ∧
    ∀ ref p, Sample.narrowWaiting.processes ref = some p →
      p.actor.pendingBlockRequests.card + p.mailbox.countP PeerCommand.isNeedPiece ≤
        max Sample.narrowWaiting.torrent.settings.initialPeerRequestWindow
          Sample.narrowWaiting.torrent.settings.maxInFlightPerPeer := by
  refine ⟨by decide +kernel, window_respected (c := Sample.codec) (Sample.reach_narrowWaiting ?_ ?_ ?_ ⟨?_, ?_⟩)⟩
  · rintro s ref i ⟨j, hj, -⟩
    cases hj
  · exact Sample.not_reclaims rfl (by decide +kernel) id
  · exact Sample.not_reclaims rfl (by decide +kernel) id
  · have hhead : Sample.narrowOffered.inbox.head? = some (0, .peerReady Sample.peer []) := by decide +kernel
    exact Sample.not_reclaims (Sample.nextInput_deliver hhead) (by decide +kernel) id
  · have hhead : (Sample.after Sample.narrowOffered [Sample.deliver]).inbox.head? =
        some (0, .peerReady Sample.peer [true, true]) := by decide +kernel
    exact Sample.not_reclaims (Sample.nextInput_deliver hhead) (by decide +kernel) id

/-- **A request that becomes stale is asked for again elsewhere, and the actor has one too many.** -/
theorem window_exceeded :
    ∃ s : Swarm Bytes, (swarmSystem Sample.codec).Reach (fun _ _ => True) s ∧
      ∃ ref p, s.processes ref = some p ∧
        max s.torrent.settings.initialPeerRequestWindow s.torrent.settings.maxInFlightPerPeer <
          p.actor.pendingBlockRequests.card + p.mailbox.countP PeerCommand.isNeedPiece := by
  have hreach : (swarmSystem Sample.codec).Reach (fun _ _ => True) Sample.narrowExpired := by
    refine Sample.reach_after (Sample.reach_narrowWaiting (fun _ _ _ => trivial) trivial trivial ⟨trivial, trivial⟩)
      (by decide +kernel) ?_
    intro i hi
    simp only [List.mem_cons, List.not_mem_nil, or_false] at hi
    rcases hi with rfl | rfl
    · exact ⟨⟨nofun, rfl, fun _ => rfl⟩, fun _ => trivial⟩
    · exact ⟨trivial, fun _ => trivial⟩
  have hpending : (Sample.narrowExpired.processes 0).map (fun p => p.actor.pendingBlockRequests) =
      some {(0, 0, 1), (1, 0, 1)} := by decide +kernel
  obtain ⟨p, hp, hblocks⟩ := Option.map_eq_some_iff.1 hpending
  refine ⟨Sample.narrowExpired, hreach, 0, p, hp, ?_⟩
  have hsettings : max Sample.narrowExpired.torrent.settings.initialPeerRequestWindow
      Sample.narrowExpired.torrent.settings.maxInFlightPerPeer = 1 := by decide +kernel
  have htwo : p.actor.pendingBlockRequests.card = 2 := by
    rw [hblocks]
    rfl
  omega

end Tortillas
