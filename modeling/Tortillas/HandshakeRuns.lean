/-
**Who is in a swarm has shaken hands for it.**

The tasks of all connections of all engines run at once: an engine reads one incoming handshake at a time, the torrents
come to the messages of the tasks in any order, peers are removed and torrents stop meanwhile, and the other end of a
connection may be anybody.  What holds of a peer that has been taken in does not depend on any of this: it has been read
from a whole handshake for the torrent, the reader has stopped where the handshake does, and nobody else has its id.

Where both ends are torrents of ours, the two agree on the hash and on each other.  And a handshake between such ends is
never stuck: as long as neither task has failed, it can be brought to its end, if need be by letting the engine give up
on whom it waits for.

Main definitions:

* `Network.RegisteredAt`, `Network.Sound` — the invariant of the network;
* `Meets` — a connection between two torrents that have no reason to refuse each other;
* `TaskPhase.rank` — how many steps are left.

Main results:

* `Network.Sound.step` — every step of the network keeps the invariant;
* `peers_shook_hands` — **whoever is in a swarm has shaken hands for it**, whatever the other end does;
* `handshakes_agree` — **two torrents that have taken each other in agree**, and each goes on reading where the other's
  handshake ends;
* `handshake_can_finish` — **a handshake is never stuck**.
-/

import Tortillas.Handshaking

set_option relaxedAutoImplicit false
set_option autoImplicit false

namespace Tortillas

variable {τ ν κ : Type} {R : Roster τ ν}

/-! ### The invariant of the network -/

namespace Network

/-- An end of a connection has been taken in by a torrent, under this id. -/
def RegisteredAt (N : Network τ ν κ) (e : κ × Side) (t : τ) (id : PeerId) : Prop :=
  ∃ l reserved, N.link e.1 = some l ∧ l.phase e.2 = .registered t id reserved

/-- The peers of a torrent are the ends that it has taken in, each under its id. -/
def PeersRight (N : Network τ ν κ) : Prop :=
  ∀ t id e, (N.peers t).get? id = some e ↔ N.RegisteredAt e t id

/-- An engine handles the stream whose handshake it reads, and no other. -/
def HandlesRight (N : Network τ ν κ) : Prop :=
  ∀ node c, N.handling node = some c ↔
    ∃ l got, N.link c = some l ∧ l.callee = some node ∧ l.phase .right = .admitted got

structure Sound (R : Roster τ ν) (N : Network τ ν κ) : Prop where
  hosted : Homed R N.torrents
  links : ∀ c l, N.link c = some l → l.Sound R
  peers : N.PeersRight
  handles : N.HandlesRight

section Frame

variable [DecidableEq κ] (N : Network τ ν κ) (c : κ) (l : Link τ ν)

@[simp] theorem setLink_link : (N.setLink c l).link = Function.update N.link c (some l) := rfl

@[simp] theorem setLink_torrents : (N.setLink c l).torrents = N.torrents := rfl

@[simp] theorem setLink_running : (N.setLink c l).running = N.running := rfl

@[simp] theorem setLink_peers : (N.setLink c l).peers = N.peers := rfl

@[simp] theorem setLink_handling : (N.setLink c l).handling = N.handling := rfl

@[simp] theorem release_link : (N.release c).link = N.link := rfl

@[simp] theorem release_torrents : (N.release c).torrents = N.torrents := rfl

@[simp] theorem release_running : (N.release c).running = N.running := rfl

@[simp] theorem release_peers : (N.release c).peers = N.peers := rfl

theorem release_handling {node : ν} {d : κ} :
    (N.release c).handling node = some d ↔ N.handling node = some d ∧ d ≠ c := by
  unfold release
  by_cases hc : N.handling node = some c
  · simp only [hc, if_true, reduceCtorEq, Option.some.injEq, false_iff, not_and, not_not]
    exact fun h => h.symm
  · simp only [if_neg hc]
    constructor
    · intro h
      refine ⟨h, ?_⟩
      rintro rfl
      exact hc h
    · exact And.left

end Frame

/-- What a step of one task changes, and what it leaves alone. -/
structure Moves [DecidableEq κ] (R : Roster τ ν) (N M : Network τ ν κ) (c : κ) (l : Link τ ν)
    (side : Side) (phase : TaskPhase τ) (bytes : Bytes) (n : ℕ) : Prop where
  goes : Link.Goes R N.torrents N.running l side phase bytes n
  link : N.link c = some l
  moved : M.link = Function.update N.link c (some (l.after side phase bytes n))
  torrents : M.torrents = N.torrents
  running : M.running = N.running
  peers : M.peers = N.peers
  handling : ∀ node d, M.handling node = some d ↔ N.handling node = some d ∧
    (d = c → ∃ got, (l.after side phase bytes n).phase .right = .admitted got)

variable [DecidableEq κ] {N M : Network τ ν κ} {c : κ} {l m : Link τ ν}

/-- A step of a task in the network. -/
theorem moves_of_move {f : Link τ ν → Option (Link τ ν)}
    (hf : ∀ l m, f l = some m → ∃ side phase bytes n,
      Link.Goes R N.torrents N.running l side phase bytes n ∧ m = l.after side phase bytes n)
    (h : N.move c f = some M) : ∃ l side phase bytes n, Moves R N M c l side phase bytes n := by
  obtain ⟨l, hlink, h⟩ := Option.bind_eq_some_iff.1 h
  obtain ⟨m, hm, h⟩ := Option.map_eq_some_iff.1 h
  obtain ⟨side, phase, bytes, n, hgoes, rfl⟩ := hf l m hm
  refine ⟨l, side, phase, bytes, n, ?_⟩
  split at h
  · rename_i got hadmitted
    subst h
    exact ⟨hgoes, hlink, rfl, rfl, rfl, rfl,
      fun node d => ⟨fun h => ⟨h, fun _ => ⟨got, hadmitted⟩⟩, And.left⟩⟩
  · rename_i hnot
    subst h
    refine ⟨hgoes, hlink, rfl, rfl, rfl, rfl, fun node d => ?_⟩
    rw [release_handling]
    refine and_congr_right fun _ => ⟨fun hne heq => absurd heq hne, fun h heq => ?_⟩
    obtain ⟨got, hgot⟩ := h heq
    exact hnot got hgot

section RegisteredAt

variable {side : Side} {phase : TaskPhase τ}

theorem registeredAt_self (l : Link τ ν) (bytes : Bytes) (n : ℕ)
    (hmoved : M.link = Function.update N.link c (some (l.after side phase bytes n))) (t : τ) (id : PeerId) :
    M.RegisteredAt (c, side) t id ↔ ∃ reserved, phase = .registered t id reserved := by
  unfold RegisteredAt
  simp [hmoved]

theorem registeredAt_of_ne (bytes : Bytes) (n : ℕ) (hlink : N.link c = some l)
    (hmoved : M.link = Function.update N.link c (some (l.after side phase bytes n))) {e : κ × Side}
    (he : e ≠ (c, side)) (t : τ) (id : PeerId) : M.RegisteredAt e t id ↔ N.RegisteredAt e t id := by
  obtain ⟨d, other⟩ := e
  unfold RegisteredAt
  rw [hmoved]
  by_cases hd : d = c
  · have hother : other ≠ side := fun heq => he (by rw [hd, heq])
    simp [hd, hlink, Link.after_phase_of_ne _ _ _ _ _ hother]
  · simp [Function.update_of_ne hd]

end RegisteredAt

/-- **A step of a task keeps the invariant.** -/
theorem Sound.moves (hN : N.Sound R) {side : Side} {phase : TaskPhase τ} {bytes : Bytes} {n : ℕ}
    (h : Moves R N M c l side phase bytes n) : M.Sound R := by
  constructor
  · rw [h.torrents]
    exact hN.hosted
  · intro d k hd
    rw [h.moved] at hd
    by_cases hdc : d = c
    · rw [hdc, Function.update_self] at hd
      cases hd
      exact (hN.links c l h.link).after (h.goes.stands hN.hosted (hN.links c l h.link))
    · rw [Function.update_of_ne hdc] at hd
      exact hN.links d k hd
  · intro t id e
    rw [h.peers, hN.peers t id e]
    by_cases he : e = (c, side)
    · rw [he, registeredAt_self l bytes n h.moved]
      simp [RegisteredAt, h.link, h.goes.registered_iff]
    · rw [registeredAt_of_ne bytes n h.link h.moved he]
  · intro node d
    rw [h.handling, hN.handles node d, h.moved]
    by_cases hdc : d = c
    · subst hdc
      rw [Function.update_self, h.link]
      simp only [Option.some.injEq, exists_and_left, exists_eq_left', Link.after_callee, true_imp_iff]
      constructor
      · rintro ⟨⟨hnode, -⟩, hgot⟩
        exact ⟨hnode, hgot⟩
      · rintro ⟨hnode, got, hgot⟩
        refine ⟨⟨hnode, ?_⟩, got, hgot⟩
        by_cases hside : Side.right = side
        · subst hside
          rw [Link.after_phase] at hgot
          exact h.goes.admitted hgot
        · rw [Link.after_phase_of_ne _ _ _ _ _ hside] at hgot
          exact ⟨got, hgot⟩
    · rw [Function.update_of_ne hdc]
      exact and_iff_left fun heq => absurd heq hdc

/-- **A torrent that takes a peer in or lets it go keeps the invariant.** -/
theorem Sound.replace (hN : N.Sound R) (hlink : N.link c = some l) {side : Side}
    {phase : TaskPhase τ} {peers : τ → HashMap PeerId (κ × Side)}
    (hbefore : ∀ got, l.phase side ≠ .admitted got) (hafter : ∀ got, phase ≠ .admitted got)
    (hstands : Stands R (l.setPhase side phase) side phase)
    (hpeers : { N.setLink c (l.setPhase side phase) with peers := peers }.PeersRight) :
    { N.setLink c (l.setPhase side phase) with peers := peers }.Sound R := by
  refine ⟨hN.hosted, ?_, hpeers, ?_⟩
  · intro d k hd
    by_cases hdc : d = c
    · simp only [hdc, setLink_link, Function.update_self, Option.some.injEq] at hd
      rw [← hd]
      exact (hN.links c l hlink).after hstands
    · simp only [setLink_link, Function.update_of_ne hdc] at hd
      exact hN.links d k hd
  · intro node d
    refine (hN.handles node d).trans ?_
    by_cases hdc : d = c
    · subst hdc
      have hright : ∀ got, l.phase .right = .admitted got ↔
          (l.setPhase side phase).phase .right = .admitted got := by
        intro got
        by_cases hside : Side.right = side
        · subst hside
          rw [Link.setPhase, Link.after_phase]
          exact iff_of_false (hbefore got) (hafter got)
        · rw [Link.setPhase, Link.after_phase_of_ne _ _ _ _ _ hside]
      simp only [setLink_link, Function.update_self, hlink, Option.some.injEq, exists_and_left,
        exists_eq_left', hright]
      exact Iff.rfl
    · simp only [setLink_link, Function.update_of_ne hdc]

/-- A connection that comes to be. -/
theorem Sound.opened (hN : N.Sound R) (hnone : N.link c = none) (hl : l.Sound R)
    (hregistered : ∀ side t id reserved, l.phase side ≠ .registered t id reserved)
    (hadmitted : ∀ got, l.phase .right ≠ .admitted got) : (N.setLink c l).Sound R := by
  refine ⟨hN.hosted, ?_, ?_, ?_⟩
  · intro d k hd
    by_cases hdc : d = c
    · simp only [hdc, setLink_link, Function.update_self, Option.some.injEq] at hd
      rw [← hd]
      exact hl
    · simp only [setLink_link, Function.update_of_ne hdc] at hd
      exact hN.links d k hd
  · intro t id e
    refine (hN.peers t id e).trans ?_
    unfold RegisteredAt
    by_cases he : e.1 = c
    · simp [he, hnone, hregistered]
    · simp [Function.update_of_ne he]
  · intro node d
    refine (hN.handles node d).trans ?_
    by_cases hdc : d = c
    · simp [hdc, hnone, hadmitted]
    · simp [Function.update_of_ne hdc]

/-- An engine that comes to an incoming stream. -/
theorem Sound.accept [DecidableEq ν] (hN : N.Sound R) {node : ν} (hlink : N.link c = some l)
    (hnode : l.callee = some node) (hphase : l.phase .right = .queued) (hidle : N.handling node = none) :
    { N.setLink c (l.setPhase .right (.admitted [])) with
      handling := Function.update N.handling node (some c) }.Sound R := by
  have hstands := hN.links c l hlink .right
  rw [hphase] at hstands
  refine ⟨hN.hosted, ?_, ?_, ?_⟩
  · intro d k hd
    by_cases hdc : d = c
    · simp only [hdc, setLink_link, Function.update_self, Option.some.injEq] at hd
      rw [← hd]
      refine (hN.links c l hlink).after ?_
      cases hstands with
      | queued hsent htaken =>
          exact .admitted (by simp [hsent]) List.nil_prefix (by simp [htaken]) (by decide)
    · simp only [setLink_link, Function.update_of_ne hdc] at hd
      exact hN.links d k hd
  · intro t id e
    refine (hN.peers t id e).trans ?_
    by_cases he : e = (c, .right)
    · rw [he]
      refine Iff.trans ?_ (registeredAt_self l [] 0 rfl t id).symm
      simp [RegisteredAt, hlink, hphase]
    · exact (registeredAt_of_ne [] 0 hlink rfl he t id).symm
  · intro node' d
    simp only [setLink_link]
    have hother : node' ≠ node → (N.handling node' = some c ↔ False) := by
      intro hne
      refine iff_of_false (fun hhandling => ?_) id
      obtain ⟨k, got, hk, hcallee, -⟩ := (hN.handles node' c).1 hhandling
      rw [hlink, Option.some.injEq] at hk
      rw [← hk, hnode, Option.some.injEq] at hcallee
      exact hne hcallee.symm
    by_cases hdc : d = c
    · subst hdc
      simp only [Function.update_self, Option.some.injEq, exists_and_left, exists_eq_left']
      rw [Link.setPhase, Link.after_callee, Link.after_phase, hnode]
      by_cases hnode' : node' = node
      · simp [hnode']
      · simp [Function.update_of_ne hnode', hother hnode', Ne.symm hnode']
    · rw [Function.update_of_ne hdc, ← hN.handles]
      by_cases hnode' : node' = node
      · simp [hnode', hidle, Ne.symm hdc]
      · rw [Function.update_of_ne hnode']

variable [DecidableEq τ]

/-- The torrent's `peer_connected` keeps the invariant. -/
theorem Sound.register (hN : N.Sound R) {side : Side} {scope : Bool}
    (h : N.register c side scope = some M) : M.Sound R := by
  obtain ⟨l, hlink, h⟩ := Option.bind_eq_some_iff.1 h
  have hstands := hN.links c l hlink side
  split at h
  · rename_i t id reserved hphase
    have hnot : ∀ e, e = (c, side) → ∀ t id, ¬ N.RegisteredAt e t id := by
      rintro e rfl t id ⟨k, bits, hk, hregistered⟩
      rw [hlink, Option.some.injEq] at hk
      rw [← hk, hphase] at hregistered
      cases hregistered
    have hbefore : ∀ got, l.phase side ≠ .admitted got := by simp [hphase]
    rw [hphase] at hstands
    split at h
    · split at h
      · rename_i p hinsert
        cases h
        -- the id was free, and the end is registered nowhere else
        obtain ⟨hid, hfree⟩ := insertPeer_ok hinsert
        cases hid
        refine hN.replace hlink hbefore (by simp) ?_ ?_
        · cases hstands with
          | asking howner hsent hheard hother =>
              exact .registered (l := l.setPhase side _) howner (by simp [Link.setPhase, hsent])
                (hheard.frame (by simp [Link.setPhase]) (by simp [Link.setPhase])) hother
        · intro t' id' e
          simp only
          by_cases he : e = (c, side)
          · rw [he]
            refine Iff.trans ?_ (registeredAt_self l [] 0 rfl t' id').symm
            have hpeer : (N.peers t').get? id' ≠ some (c, side) :=
              fun hget => hnot _ rfl _ _ ((hN.peers _ _ _).1 hget)
            by_cases ht : t' = t
            · subst ht
              rw [Function.update_self, HashMap.get?_insert]
              by_cases hid : id' = id
              · simp [hid]
              · simp [hid, Ne.symm hid, hpeer]
            · rw [Function.update_of_ne ht]
              simp [hpeer, Ne.symm ht]
          · refine Iff.trans ?_ (registeredAt_of_ne [] 0 hlink rfl he t' id').symm
            rw [← hN.peers]
            by_cases ht : t' = t
            · subst ht
              rw [Function.update_self, HashMap.get?_insert]
              by_cases hid : id' = id
              · simp [hid, hfree, Ne.symm he]
              · simp [hid]
            · rw [Function.update_of_ne ht]
      · cases h
        refine hN.replace hlink hbefore (by simp) (.ended (hstands.discreet.setPhase _)) ?_
        intro t' id' e
        refine (hN.peers t' id' e).trans ?_
        by_cases he : e = (c, side)
        · refine (iff_of_false (hnot e he t' id') ?_).trans Iff.rfl
          rw [he]
          rintro hat
          simpa using (registeredAt_self l [] 0 rfl t' id').1 hat
        · exact (registeredAt_of_ne [] 0 hlink rfl he t' id').symm
      · cases h
    · cases h
  · cases h

/-- The torrent's `remove_peer` keeps the invariant. -/
theorem Sound.removePeer (hN : N.Sound R) {t : τ} {id : PeerId} (h : N.removePeer t id = some M) :
    M.Sound R := by
  obtain ⟨⟨c, side⟩, hget, h⟩ := Option.bind_eq_some_iff.1 h
  obtain ⟨l, hlink, rfl⟩ := Option.map_eq_some_iff.1 h
  obtain ⟨k, reserved, hk, hphase⟩ := (hN.peers t id (c, side)).1 hget
  rw [hlink, Option.some.injEq] at hk
  subst hk
  refine hN.replace hlink (by simp [hphase]) (by simp)
    (.ended ((hN.links c l hlink side).discreet.setPhase _)) ?_
  intro t' id' e
  simp only
  have hsame : ∀ {e}, (N.peers t').get? id' = some e → e = (c, side) → t' = t ∧ id' = id := by
    rintro e he rfl
    obtain ⟨k, bits, hk, hphase'⟩ := (hN.peers t' id' (c, side)).1 he
    rw [hlink, Option.some.injEq] at hk
    rw [← hk, hphase] at hphase'
    cases hphase'
    exact ⟨rfl, rfl⟩
  by_cases he : e = (c, side)
  · rw [he]
    refine Iff.trans ?_ (registeredAt_self l [] 0 rfl t' id').symm
    refine iff_of_false ?_ (by simp)
    intro hat
    by_cases ht : t' = t
    · subst ht
      rw [Function.update_self] at hat
      obtain ⟨hne, hold⟩ := HashMap.get?_of_get?_erase hat
      exact hne (hsame hold rfl).2
    · rw [Function.update_of_ne ht] at hat
      exact ht (hsame hat rfl).1
  · refine Iff.trans ?_ (registeredAt_of_ne [] 0 hlink rfl he t' id').symm
    rw [← hN.peers]
    by_cases ht : t' = t
    · subst ht
      rw [Function.update_self, HashMap.get?_erase]
      by_cases hid : id' = id
      · simp [hid, hget, Ne.symm he]
      · simp [hid]
    · rw [Function.update_of_ne ht]

variable [DecidableEq ν]

/-- **Every step of the network keeps the invariant.** -/
theorem Sound.step (hN : N.Sound R) {i : NetworkInput τ ν κ} (h : N.step R i = some M) :
    M.Sound R := by
  have hmove : ∀ {c : κ} {f : Link τ ν → Option (Link τ ν)}, N.move c f = some M →
      (∀ l m, f l = some m → ∃ side phase bytes n,
        Link.Goes R N.torrents N.running l side phase bytes n ∧ m = l.after side phase bytes n) →
        M.Sound R := by
    intro c f h hf
    obtain ⟨l, side, phase, bytes, n, hmoves⟩ := moves_of_move hf h
    exact hN.moves hmoves
  cases i with
  | addTorrent t =>
      simp only [Network.step] at h
      split at h
      · cases h
      · cases h
        exact ⟨hN.hosted.add, hN.links, hN.peers, hN.handles⟩
  | removeTorrent t =>
      simp only [Network.step] at h
      split at h
      · cases h
        exact ⟨hN.hosted.remove, hN.links, hN.peers, hN.handles⟩
      · cases h
  | stopTorrent t =>
      simp only [Network.step] at h
      split at h
      · cases h
      · cases h
        exact ⟨hN.hosted, hN.links, hN.peers, hN.handles⟩
  | dial c t known callee =>
      simp only [Network.step] at h
      split at h
      · rename_i hfree
        cases h
        refine hN.opened hfree.1 ?_ ?_ ?_
        · intro side
          cases side with
          | left =>
              simp only [Roster.greets, if_pos (Link.hello_ne_nil t)]
              exact .calls rfl rfl (Link.hello_ne_nil t) rfl
          | right =>
              cases callee with
              | none => exact .foreign rfl
              | some node => exact .queued rfl rfl
        · intro side t' id reserved
          cases side with
          | left => simp [Roster.greets, Link.hello_ne_nil]
          | right => cases callee <;> simp
        · cases callee <;> simp
      · cases h
  | call c callee =>
      simp only [Network.step] at h
      split at h
      · rename_i hfree
        cases h
        refine hN.opened hfree ?_ ?_ ?_
        · intro side
          cases side with
          | left => exact .foreign rfl
          | right => exact .queued rfl rfl
        · intro side t' id reserved
          cases side <;> simp
        · simp
      · cases h
  | accept c =>
      obtain ⟨l, hlink, h⟩ := Option.bind_eq_some_iff.1 h
      obtain ⟨node, hnode, h⟩ := Option.bind_eq_some_iff.1 h
      split at h
      · rename_i hfree
        cases h
        exact hN.accept hlink hnode hfree.1 hfree.2
      · cases h
  | append c => exact hmove h fun l m hm => ⟨_, Link.goes_of_append hm⟩
  | read c side n => exact hmove h fun l m hm => ⟨side, Link.goes_of_read hm⟩
  | write c side n => exact hmove h fun l m hm => ⟨side, Link.goes_of_write hm⟩
  | talk c side bytes => exact hmove h fun l m hm => ⟨side, Link.goes_of_talk hm⟩
  | register c side scope => exact hN.register h
  | unanswered c side reason => exact hmove h fun l m hm => ⟨side, Link.goes_of_unanswered hm⟩
  | ioError c side error => exact hmove h fun l m hm => ⟨side, Link.goes_of_fail hm⟩
  | timeout c side =>
      refine hmove h fun l m hm => ⟨side, ?_⟩
      obtain ⟨node, -, hm⟩ := Option.bind_eq_some_iff.1 hm
      exact Link.goes_of_fail hm
  | removePeer t id => exact hN.removePeer h

end Network

/-! ### The swarms -/

section Swarms

variable [DecidableEq τ] [DecidableEq ν] [DecidableEq κ] {N : Network τ ν κ}

theorem sound_of_reach (hN : (networkSystem (κ := κ) R).Reach (fun _ _ => True) N) : N.Sound R := by
  refine hN.invariant (I := Network.Sound R) ?_ ?_
  · rintro N rfl
    refine ⟨?_, ?_, ?_, ?_⟩
    · intro node infoHash t h
      cases h
    · intro c l h
      cases h
    · intro t id e
      refine iff_of_false (by simp) ?_
      rintro ⟨l, reserved, h, -⟩
      cases h
    · intro node c
      refine iff_of_false (by simp) ?_
      rintro ⟨l, got, h, -⟩
      cases h
  · intro N i M hN _ h
    exact hN.step h

/-- **Every run of the network keeps the invariant.** -/
theorem Network.Sound.foldlM {M : Network τ ν κ} (hN : N.Sound R) {inputs : List (NetworkInput τ ν κ)}
    (h : inputs.foldlM (Network.step R) N = some M) : M.Sound R := by
  induction inputs generalizing N with
  | nil =>
      cases h
      exact hN
  | cons i inputs ih =>
      obtain ⟨P, hP, h⟩ := Option.bind_eq_some_iff.1 h
      exact ih (hN.step hP) h

theorem length_toBytes_of_magic {h : Handshake} (hprotocol : h.protocol = magicString) :
    h.toBytes.length = 68 := by
  have hlen : magicString.length = 19 := rfl
  simp [Handshake.toBytes, hprotocol, hlen]

/-- **Whoever is in a swarm has shaken hands for it.**  Whatever the other ends write and in whatever order things
happen: a peer of a torrent is one end of a connection, at the engine of the torrent.  That end has read a whole
handshake for the hash of the torrent and nothing behind it, and has written its own.  The peer is filed under the id of
the handshake, or under the one it was announced with, and it is not the torrent itself.  No end is in two places.  And
to a caller that has not sent a handshake for a torrent of the engine, the engine has not written a byte. -/
theorem peers_shook_hands (R : Roster τ ν) (N : Network τ ν κ)
    (hN : (networkSystem R).Reach (fun _ _ => True) N) :
    (∀ t id c side, (N.peers t).get? id = some (c, side) →
        ∃ l h, N.link c = some l ∧ l.owner R side = some (R.home t) ∧
          l.Heard side (R.infoHash t) h ∧ l.taken side = 68 ∧
          (R.hello t).toBytes <+: l.sent side ∧ id = l.idOf h side ∧ id ≠ R.peerId (R.home t)) ∧
      (∀ t t' id id' e, (N.peers t).get? id = some e → (N.peers t').get? id' = some e →
        t = t' ∧ id = id') ∧
      ∀ c l node, N.link c = some l → l.callee = some node → l.sent .right ≠ [] →
        ∃ t h, R.home t = node ∧ l.Heard .right (R.infoHash t) h := by
  have hsound := sound_of_reach hN
  refine ⟨?_, ?_, ?_⟩
  · intro t id c side hget
    obtain ⟨l, reserved, hlink, hphase⟩ := (hsound.peers t id (c, side)).1 hget
    have hstands := hsound.links c l hlink side
    rw [hphase] at hstands
    cases hstands with
    | @registered _ _ h howner hsent hheard hother =>
        refine ⟨l, h, hlink, howner, hheard, ?_, hsent, rfl, hother⟩
        rw [hheard.taken, length_toBytes_of_magic hheard.protocol]
  · intro t t' id id' e hget hget'
    obtain ⟨l, reserved, hlink, hphase⟩ := (hsound.peers t id e).1 hget
    obtain ⟨l', reserved', hlink', hphase'⟩ := (hsound.peers t' id' e).1 hget'
    rw [hlink, Option.some.injEq] at hlink'
    rw [← hlink', hphase] at hphase'
    cases hphase'
    exact ⟨rfl, rfl⟩
  · intro c l node hlink hcallee hsent
    have hdiscreet := (hsound.links c l hlink .right).discreet rfl (by simp [hcallee])
    obtain ⟨t, h, howner, hheard⟩ := hdiscreet.resolve_left hsent
    rw [hcallee, Option.some.injEq] at howner
    exact ⟨t, h, howner.symm, hheard⟩

end Swarms

/-! ### Two torrents of ours -/

/-- The handshake of a torrent as the other end reads it: the id is filed anew. -/
def Roster.seen (R : Roster τ ν) (t : τ) : Handshake :=
  { R.hello t with peerId := PeerId.ofId (R.peerId (R.home t)).id }

theorem length_hello (t : τ) : (R.hello t).toBytes.length = 68 := length_toBytes_of_magic rfl

theorem fromBytes_hello (t : τ) : Handshake.fromBytes (R.hello t).toBytes = .ok (R.seen t) := by
  have hseen := Handshake.fromBytes_toBytes (h := R.seen t) rfl rfl []
  rw [List.append_nil] at hseen
  exact hseen

/-- An end that has read a handshake from a torrent of ours has read that torrent's. -/
theorem Link.Heard.eq_seen {l : Link τ ν} {side : Side} {infoHash : InfoHash} {h : Handshake} {t : τ}
    (hheard : l.Heard side infoHash h) (hsent : (R.hello t).toBytes <+: l.sent side.opposite) :
    h = R.seen t := by
  have hlen : h.toBytes.length = (R.hello t).toBytes.length := by
    rw [length_toBytes_of_magic hheard.protocol, length_hello]
  have hbytes : h.toBytes = (R.hello t).toBytes := by
    rw [List.prefix_iff_eq_take.1 hheard.read, List.prefix_iff_eq_take.1 hsent, hlen]
  have hread := Handshake.fromBytes_toBytes hheard.protocol hheard.filed []
  rw [List.append_nil, hbytes, fromBytes_hello] at hread
  exact (Outcome.ok.inj hread).symm

/-- What an end that has read a handshake has not taken is what stands behind it. -/
theorem Link.Heard.ahead {l : Link τ ν} {side : Side} {infoHash : InfoHash} {h : Handshake}
    (hheard : l.Heard side infoHash h) : l.sent side.opposite = h.toBytes ++ l.ahead side := by
  obtain ⟨behind, hsent⟩ := hheard.read
  rw [Link.ahead, hheard.taken, ← hsent, List.drop_left]

section Agreement

variable [DecidableEq τ] [DecidableEq ν] [DecidableEq κ]

/-- **Two torrents that have taken each other in agree.**  They are torrents of the same hash, each has the bytes of the
other's id, unless the caller was told another, and of the bytes that follow the handshakes none is lost: what each end
goes on to read is all that the other has written behind its handshake. -/
theorem handshakes_agree (R : Roster τ ν) (N : Network τ ν κ)
    (hN : (networkSystem R).Reach (fun _ _ => True) N) {c : κ} {l : Link τ ν} {t u : τ}
    {idT idU : PeerId} {reservedT reservedU : Vector UInt8 8} (hlink : N.link c = some l)
    (hleft : l.phase .left = .registered t idU reservedU)
    (hright : l.phase .right = .registered u idT reservedT) :
    R.infoHash t = R.infoHash u ∧ idT = PeerId.ofId (R.peerId (R.home t)).id ∧
      idU = l.known.getD (PeerId.ofId (R.peerId (R.home u)).id) ∧
      reservedT = (R.hello t).reserved ∧ reservedU = (R.hello u).reserved ∧
      l.sent .left = (R.hello t).toBytes ++ l.ahead .right ∧
      l.sent .right = (R.hello u).toBytes ++ l.ahead .left := by
  have hsound := sound_of_reach hN
  have hstandsLeft := hsound.links c l hlink .left
  have hstandsRight := hsound.links c l hlink .right
  rw [hleft] at hstandsLeft
  rw [hright] at hstandsRight
  cases hstandsLeft with
  | @registered _ _ hU howner hsent hheard hother =>
      cases hstandsRight with
      | @registered _ _ hT howner' hsent' hheard' hother' =>
          obtain rfl : hT = R.seen t := hheard'.eq_seen hsent
          obtain rfl : hU = R.seen u := hheard.eq_seen hsent'
          exact ⟨hheard'.infoHash, rfl, rfl, rfl, rfl, hheard'.ahead, hheard.ahead⟩

end Agreement

/-! ### A handshake is never stuck -/

/-- The torrent whose task it is. -/
def TaskPhase.torrent? : TaskPhase τ → Option τ
  | .routed t _ _ | .greeting t _ _ _ | .reading t _ _ | .asking t _ _ | .registered t _ _ => some t
  | .foreign | .queued | .admitted _ | .ended _ => none

/-- How many steps are left; an engine may first have to give up on another stream. -/
def TaskPhase.rank : TaskPhase τ → ℕ
  | .queued => 7
  | .admitted got => if got = [] then 5 else 4
  | .routed _ _ _ => 3
  | .greeting _ _ reserved _ => if reserved = none then 4 else 2
  | .reading _ _ got => if got = [] then 3 else 2
  | .asking _ _ _ => 1
  | .foreign | .registered _ _ _ | .ended _ => 0

def Link.rank (l : Link τ ν) : ℕ := (l.phase .left).rank + (l.phase .right).rank

/-- A torrent calls another of the same hash, neither task has failed, and neither torrent has a reason to refuse the
other. -/
structure Meets (R : Roster τ ν) (N : Network τ ν κ) (c : κ) (l : Link τ ν) (t u : τ) : Prop where
  link : N.link c = some l
  callee : l.callee = some (R.home u)
  apart : t ≠ u
  same : R.infoHash t = R.infoHash u
  served : (N.torrents (R.home u)).get? (R.infoHash u) = some u
  running : N.running t = true ∧ N.running u = true
  other : l.known.getD (R.seen u).peerId ≠ R.peerId (R.home t) ∧ (R.seen t).peerId ≠ R.peerId (R.home u)
  alive : ∀ side error, l.phase side ≠ .ended error
  mine : (l.phase .left).torrent? = some t ∧ ∀ t', (l.phase .right).torrent? = some t' → t' = u
  freeLeft : 0 < (l.phase .left).rank → (N.peers t).get? (l.known.getD (R.seen u).peerId) = none
  freeRight : 0 < (l.phase .right).rank → (N.peers u).get? (R.seen t).peerId = none

/-- A connection can be brought on: by these inputs, as many as there are steps fewer left. -/
def Advances [DecidableEq τ] [DecidableEq ν] [DecidableEq κ] (R : Roster τ ν) (N : Network τ ν κ) (c : κ)
    (l : Link τ ν) (t u : τ) : Prop :=
  ∃ inputs M m, inputs ≠ [] ∧ inputs.foldlM (Network.step R) N = some M ∧ Meets R M c m t u ∧
    m.known = l.known ∧ inputs.length + m.rank ≤ l.rank

theorem hello_eq_cons (t : τ) : ∃ rest, (R.hello t).toBytes = 19 :: rest ∧ rest.length = 67 := by
  have hlen := length_hello (R := R) t
  refine ⟨(R.hello t).toBytes.tail, rfl, ?_⟩
  rw [List.length_tail, hlen]

theorem wanted_hello (t : τ) : Handshake.wanted (R.hello t).toBytes = 0 := by
  obtain ⟨rest, hcons, hlen⟩ := hello_eq_cons (R := R) t
  rw [hcons, Handshake.wanted, hlen]
  decide

/-- What an engine makes of the handshake of a torrent of ours. -/
theorem admits_hello {torrents : HashMap InfoHash τ} {t u : τ}
    (hserved : torrents.get? (R.infoHash t) = some u) :
    admits torrents (R.hello t).toBytes = .routed u (R.seen t).peerId (R.seen t).reserved := by
  have hpeer : incomingPeer torrents (R.hello t).toBytes = .ok (u, R.seen t) := by
    have hget : torrents.get? (R.seen t).infoHash = some u := hserved
    rw [incomingPeer, recvHandshakeMessage, fromBytes_hello, Outcome.ok_bind,
      validateHandshakeProtocol_ok.2 rfl, Outcome.ok_bind, hget]
  rw [admits, if_pos (wanted_hello t), hpeer]
  rfl

/-- What a caller makes of the handshake of a torrent of ours. -/
theorem hears_hello {t u : τ} {known : Option PeerId} (hsame : R.infoHash t = R.infoHash u)
    (hother : known.getD (R.seen u).peerId ≠ R.peerId (R.home t)) :
    R.hears t known (R.hello u).toBytes =
      .asking t (known.getD (R.seen u).peerId) (R.seen u).reserved := by
  have hanswer : answeredHandshake (R.infoHash t) (R.hello u).toBytes = .ok (R.seen u) := by
    have hhash : R.infoHash t = (R.seen u).infoHash := hsame
    rw [answeredHandshake, recvHandshakeMessage, fromBytes_hello, Outcome.ok_bind, validateHandshake,
      validateHandshakeProtocol_ok.2 rfl, Outcome.ok_bind, if_neg (not_not.2 hhash), Outcome.ok_bind]
  have hid : connectedId (R.peerId (R.home t)) known (some (R.seen u).peerId) =
      .ok (known.getD (R.seen u).peerId) := by
    rw [connectedId, Option.or_some]
    exact if_neg hother
  rw [Roster.hears, if_pos (wanted_hello u), Roster.answered, hanswer, Outcome.ok_bind, hid]
  rfl

namespace Link

variable {l : Link τ ν} (side : Side) {t : τ}

/-- The first byte of a handshake is there to be read. -/
theorem deliver_first (htaken : l.taken side = 0)
    (hhello : (R.hello t).toBytes <+: l.sent side.opposite) : l.deliver side [] 1 = some [19] := by
  obtain ⟨rest, hcons, -⟩ := hello_eq_cons (R := R) t
  obtain ⟨behind, hsent⟩ := hhello
  have hahead : l.ahead side = 19 :: (rest ++ behind) := by
    rw [ahead, htaken, List.drop_zero, ← hsent, hcons, List.cons_append]
  rw [deliver, hahead, if_pos ⟨by omega, le_rfl, by simp⟩]
  rfl

/-- And so is all of it that is still wanted. -/
theorem deliver_rest {got : Bytes} (hgot : got <+: l.sent side.opposite)
    (htaken : l.taken side = got.length) (hne : got ≠ []) (hwanted : 0 < Handshake.wanted got)
    (hhello : (R.hello t).toBytes <+: l.sent side.opposite) :
    l.deliver side got (Handshake.wanted got) = some (R.hello t).toBytes := by
  obtain ⟨rest, hcons, hrest⟩ := hello_eq_cons (R := R) t
  obtain ⟨behind, hsent⟩ := hhello
  cases got with
  | nil => exact absurd rfl hne
  | cons protocolLen got =>
      -- the first byte is that of the handshake, and so is the length that it announces
      obtain ⟨other, hother⟩ := hgot
      have hfirst : protocolLen = 19 := by
        rw [← hsent, hcons, List.cons_append, List.cons_append] at hother
        exact (List.cons.inj hother).1
      have hlen : Handshake.wanted (protocolLen :: got) = 67 - got.length := by
        rw [Handshake.wanted, hfirst]
        have : Handshake.lengthFor 19 = 68 := rfl
        omega
      have hprefix : protocolLen :: got <+: (R.hello t).toBytes := by
        refine List.prefix_of_prefix_length_le ⟨other, hother⟩ ⟨behind, hsent⟩ ?_
        rw [length_hello, List.length_cons]
        omega
      obtain ⟨missing, hmissing⟩ := hprefix
      have hmissingLen : missing.length = 67 - got.length := by
        have := congrArg List.length hmissing
        rw [length_hello, List.length_append, List.length_cons] at this
        omega
      have hahead : l.ahead side = missing ++ behind := by
        rw [ahead, htaken, ← hsent, ← hmissing, List.append_assoc, List.drop_left]
      rw [deliver, hahead, if_pos ⟨hwanted, le_rfl, by rw [hlen, List.length_append]; omega⟩, hlen,
        ← hmissingLen, List.take_left, hmissing]

/-- An end that has written as much as a handshake has written its own. -/
theorem hello_of_long {p : TaskPhase τ} (h : Stands R l side p) (halive : ∀ error, p ≠ .ended error)
    (howner : l.owner R side ≠ none) (hlong : 68 ≤ (l.sent side).length) :
    ∃ t, p.torrent? = some t ∧ (R.hello t).toBytes <+: l.sent side := by
  have hshort : ∀ {t rest} {sent : Bytes}, sent ++ rest = (R.hello t).toBytes → rest ≠ [] →
      ¬ 68 ≤ sent.length := by
    intro t rest sent hsent hrest
    have hlen := congrArg List.length hsent
    rw [List.length_append, length_hello] at hlen
    have := List.length_pos_iff.2 hrest
    omega
  cases h with
  | foreign hnone => exact absurd hnone howner
  | queued hsent htaken => simp [hsent] at hlong
  | admitted hsent hgot htaken hwanted => simp [hsent] at hlong
  | routed hsent howner hheard => simp [hsent] at hlong
  | answers howner hsent hrest hheard => exact absurd hlong (hshort hsent hrest)
  | calls howner hsent hrest htaken => exact absurd hlong (hshort hsent hrest)
  | @reading t got howner hsent hgot htaken hwanted => exact ⟨t, rfl, by rw [hsent]⟩
  | @asking _ t h howner hsent hheard hother => exact ⟨t, rfl, by rw [hsent]⟩
  | @registered _ t h howner hsent hheard hother => exact ⟨t, rfl, hsent⟩
  | ended hdiscreet => exact absurd rfl (halive _)

theorem rank_after (l : Link τ ν) (side : Side) (phase : TaskPhase τ) (bytes : Bytes) (n : ℕ) :
    (l.after side phase bytes n).rank + (l.phase side).rank = l.rank + phase.rank := by
  unfold rank
  cases side with
  | left =>
      rw [after_phase, after_phase_of_ne _ _ _ _ _ (by decide)]
      omega
  | right =>
      rw [after_phase, after_phase_of_ne _ _ _ _ _ (by decide)]
      omega

end Link

namespace Meets

variable {N M : Network τ ν κ} {c : κ} {l : Link τ ν} {t u : τ}

/-- The two go on meeting while only their tasks go on. -/
theorem after (h : Meets R N c l t u) (side : Side) (phase : TaskPhase τ) (bytes : Bytes) (n : ℕ)
    (hmoved : M.link c = some (l.after side phase bytes n)) (htorrents : M.torrents = N.torrents)
    (hrunning : M.running = N.running) (halive : ∀ error, phase ≠ .ended error)
    (hmine : ∀ t', phase.torrent? = some t' → t' = side.casesOn t u)
    (htask : side = .left → phase.torrent? ≠ none)
    (hfreeLeft : 0 < ((l.after side phase bytes n).phase .left).rank →
      (M.peers t).get? (l.known.getD (R.seen u).peerId) = none)
    (hfreeRight : 0 < ((l.after side phase bytes n).phase .right).rank →
      (M.peers u).get? (R.seen t).peerId = none) : Meets R M c (l.after side phase bytes n) t u where
  link := hmoved
  callee := h.callee
  apart := h.apart
  same := h.same
  served := by rw [htorrents]; exact h.served
  running := by rw [hrunning]; exact h.running
  other := h.other
  alive other error := by
    by_cases hother : other = side
    · rw [hother, Link.after_phase]
      exact halive error
    · rw [Link.after_phase_of_ne _ _ _ _ _ hother]
      exact h.alive other error
  mine := by
    cases side with
    | left =>
        rw [Link.after_phase, Link.after_phase_of_ne _ _ _ _ _ (by decide)]
        obtain ⟨t', ht'⟩ := Option.ne_none_iff_exists'.1 (htask rfl)
        exact ⟨by rw [ht', hmine t' ht'], h.mine.2⟩
    | right =>
        rw [Link.after_phase, Link.after_phase_of_ne _ _ _ _ _ (by decide)]
        exact ⟨h.mine.1, hmine⟩
  freeLeft := hfreeLeft
  freeRight := hfreeRight

/-- Where no step is left, each has taken the other in. -/
theorem done (h : Meets R N c l t u) (hN : N.Sound R) (hrank : l.rank = 0) :
    (N.peers t).get? (l.known.getD (R.seen u).peerId) = some (c, .left) ∧
      (N.peers u).get? (R.seen t).peerId = some (c, .right) := by
  have hleft := hN.links c l h.link .left
  have hright := hN.links c l h.link .right
  have hcallee : l.owner R .right ≠ none := by simp [Link.owner, h.callee]
  have hzero : (l.phase .left).rank = 0 ∧ (l.phase .right).rank = 0 := by
    rw [Link.rank] at hrank
    omega
  have hmine := h.mine.1
  generalize hphaseLeft : l.phase .left = p at hleft
  rw [hphaseLeft] at hmine hzero
  cases hleft with
  | foreign hnone => cases hmine
  | calls howner hsent hrest htaken => cases hzero.1
  | @reading t' got howner hsent hgot htaken hwanted =>
      by_cases hnil : got = [] <;> simp [TaskPhase.rank, hnil] at hzero
  | asking howner hsent hheard hother => cases hzero.1
  | ended hdiscreet => cases hmine
  | @registered _ t' hU howner hsent hheardU hother =>
      cases hmine
      generalize hphaseRight : l.phase .right = q at hright
      rw [hphaseRight] at hzero
      cases hright with
      | foreign hnone => exact absurd hnone hcallee
      | queued hsent htaken => cases hzero.2
      | @admitted got hsent hgot htaken hwanted =>
          by_cases hnil : got = [] <;> simp [TaskPhase.rank, hnil] at hzero
      | routed hsent howner hheard => cases hzero.2
      | answers howner hsent hrest hheard => simp [TaskPhase.rank] at hzero
      | asking howner hsent hheard hother => cases hzero.2
      | ended hdiscreet => exact absurd hphaseRight (h.alive _ _)
      | @registered _ u' hT howner' hsent' hheardT hother' =>
          obtain rfl := h.mine.2 u' (by rw [hphaseRight]; rfl)
          obtain rfl := hheardT.eq_seen hsent
          obtain rfl := hheardU.eq_seen hsent'
          exact ⟨(hN.peers t _ (c, .left)).2 ⟨l, _, h.link, hphaseLeft⟩,
            (hN.peers u' _ (c, .right)).2 ⟨l, _, h.link, hphaseRight⟩⟩

theorem rank_le (h : Meets R N c l t u) (hN : N.Sound R) : l.rank ≤ 11 := by
  have hright : (l.phase .right).rank ≤ 7 := by
    cases l.phase .right <;> simp only [TaskPhase.rank] <;> (try split) <;> omega
  have hleft : (l.phase .left).rank ≤ 4 := by
    have hstands := hN.links c l h.link .left
    generalize l.phase .left = p at hstands
    cases hstands <;> simp only [TaskPhase.rank] <;> (try split) <;> omega
  rw [Link.rank]
  omega

variable [DecidableEq τ] [DecidableEq ν] [DecidableEq κ]

/-- A step of one of the two tasks. -/
theorem advances_of_move (h : Meets R N c l t u) (i : NetworkInput τ ν κ) (side : Side)
    (phase : TaskPhase τ) (bytes : Bytes) (n : ℕ) {f : Link τ ν → Option (Link τ ν)}
    (hi : N.step R i = N.move c f) (hf : f l = some (l.after side phase bytes n))
    (halive : ∀ error, phase ≠ .ended error) (hmine : ∀ t', phase.torrent? = some t' → t' = side.casesOn t u)
    (htask : side = .left → phase.torrent? ≠ none) (hlt : phase.rank < (l.phase side).rank) :
    Advances R N c l t u := by
  obtain ⟨M, hM, hlink, htorrents, hrunning, hpeers⟩ : ∃ M, N.move c f = some M ∧
      M.link c = some (l.after side phase bytes n) ∧ M.torrents = N.torrents ∧ M.running = N.running ∧
      M.peers = N.peers := by
    rw [Network.move, h.link, Option.bind_some, hf, Option.map_some]
    refine ⟨_, rfl, ?_⟩
    split <;> exact ⟨by simp, rfl, rfl, rfl⟩
  have hrank := Link.rank_after l side phase bytes n
  have hbefore : ∀ other, 0 < ((l.after side phase bytes n).phase other).rank → 0 < (l.phase other).rank := by
    intro other hpos
    by_cases hother : other = side
    · rw [hother]
      omega
    · rw [Link.after_phase_of_ne _ _ _ _ _ hother] at hpos
      exact hpos
  refine ⟨[i], M, l.after side phase bytes n, by simp, ?_, ?_, rfl, ?_⟩
  · simp [hi, hM]
  · refine h.after side phase bytes n hlink htorrents hrunning halive hmine htask ?_ ?_
    · rw [hpeers]
      exact fun hpos => h.freeLeft (hbefore _ hpos)
    · rw [hpeers]
      exact fun hpos => h.freeRight (hbefore _ hpos)
  · simp only [List.length_singleton]
    omega

/-- A torrent takes the other in. -/
theorem advances_of_register (h : Meets R N c l t u) (side : Side) {id : PeerId}
    {reserved : Vector UInt8 8} (hphase : l.phase side = .asking (side.casesOn t u) id reserved)
    (hid : id = side.casesOn (l.known.getD (R.seen u).peerId) (R.seen t).peerId) :
    Advances R N c l t u := by
  have hrank := Link.rank_after l side (.registered (side.casesOn t u) id reserved) [] 0
  rw [hphase] at hrank
  simp only [TaskPhase.rank] at hrank
  have hpos : 0 < (l.phase side).rank := by simp [hphase, TaskPhase.rank]
  have hrunning : N.running (side.casesOn t u) = true := by
    cases side with
    | left => exact h.running.1
    | right => exact h.running.2
  have hfree : (N.peers (side.casesOn t u)).get? id = none := by
    cases side with
    | left => rw [hid]; exact h.freeLeft hpos
    | right => rw [hid]; exact h.freeRight hpos
  have hinsert : insertPeer (N.peers (side.casesOn t u)) (some id) true = .ok id := by
    simp [insertPeer, HashMap.contains, hfree]
  refine ⟨[.register c side true], _, _, by simp, ?_, h.after side
    (.registered (side.casesOn t u) id reserved) [] 0 (M :=
      { N.setLink c (l.setPhase side (.registered (side.casesOn t u) id reserved)) with
        peers := Function.update N.peers (side.casesOn t u)
          ((N.peers (side.casesOn t u)).insert id (c, side)) })
    (by simp [Link.setPhase]) rfl rfl (by simp) ?_ ?_ ?_ ?_, rfl, ?_⟩
  · simp [Network.step, Network.register, h.link, hphase, hrunning, hinsert]
  · simp [TaskPhase.torrent?]
  · simp [TaskPhase.torrent?]
  · intro hleft
    cases side with
    | left => simp [TaskPhase.rank] at hleft
    | right =>
        simp only [Function.update_of_ne h.apart]
        rw [Link.after_phase_of_ne _ _ _ _ _ (by decide)] at hleft
        exact h.freeLeft hleft
  · intro hright
    cases side with
    | left =>
        simp only [Function.update_of_ne (Ne.symm h.apart)]
        rw [Link.after_phase_of_ne _ _ _ _ _ (by decide)] at hright
        exact h.freeRight hright
    | right => simp [TaskPhase.rank] at hright
  · simp only [List.length_singleton]
    omega

/-- The caller writes its handshake. -/
theorem advances_of_calling (h : Meets R N c l t u) {known : Option PeerId} {rest : Bytes}
    (hphase : l.phase .left = .greeting t known none rest) (hrest : rest ≠ []) : Advances R N c l t u := by
  have hpos := List.length_pos_iff.2 hrest
  refine h.advances_of_move (.write c .left rest.length) .left
    (.reading t known []) rest 0 rfl ?_ (by simp) ?_ ?_ ?_
  · rw [Link.write, hphase]
    simp [hpos, Roster.greets]
  · simp [TaskPhase.torrent?]
  · simp [TaskPhase.torrent?]
  · simp [hphase, TaskPhase.rank]

/-- The caller reads the answer. -/
theorem advances_of_reading (h : Meets R N c l t u) {got : Bytes}
    (hphase : l.phase .left = .reading t l.known got) (hgot : got <+: l.sent .right)
    (htaken : l.taken .left = got.length) (hwanted : 0 < Handshake.wanted got)
    (hhello : (R.hello u).toBytes <+: l.sent .right) : Advances R N c l t u := by
  by_cases hnil : got = []
  · subst hnil
    have hdeliver := Link.deliver_first .left htaken hhello
    refine h.advances_of_move (.read c .left 1) .left (.reading t l.known [19])
      [] 1 rfl ?_ (by simp) ?_ ?_ ?_
    · have hmore : R.hears t l.known [19] = .reading t l.known [19] := if_neg (by decide)
      rw [Link.read, hphase]
      simp only [hdeliver, Option.map_some, hmore]
    · simp [TaskPhase.torrent?]
    · simp [TaskPhase.torrent?]
    · simp [hphase, TaskPhase.rank]
  · have hdeliver := Link.deliver_rest .left hgot htaken hnil hwanted hhello
    refine h.advances_of_move (.read c .left (Handshake.wanted got)) .left
      (.asking t (l.known.getD (R.seen u).peerId) (R.seen u).reserved) []
      (Handshake.wanted got) rfl ?_ (by simp) ?_ ?_ ?_
    · rw [Link.read, hphase]
      simp only [hdeliver, Option.map_some, hears_hello h.same h.other.1]
    · simp [TaskPhase.torrent?]
    · simp [TaskPhase.torrent?]
    · simp [hphase, TaskPhase.rank, hnil]

/-- The engine reads the handshake of the caller. -/
theorem advances_of_admitted (h : Meets R N c l t u) {got : Bytes}
    (hphase : l.phase .right = .admitted got) (hgot : got <+: l.sent .left)
    (htaken : l.taken .right = got.length) (hwanted : 0 < Handshake.wanted got)
    (hhello : (R.hello t).toBytes <+: l.sent .left) : Advances R N c l t u := by
  by_cases hnil : got = []
  · subst hnil
    have hdeliver := Link.deliver_first .right htaken hhello
    refine h.advances_of_move (.read c .right 1) .right (.admitted [19])
      [] 1 rfl ?_ (by simp) ?_ (by simp) ?_
    · have hmore : admits (N.torrents (R.home u)) [19] = .admitted [19] := if_neg (by decide)
      rw [Link.read, hphase, h.callee]
      simp only [Option.bind_some, hdeliver, Option.map_some, hmore]
    · simp [TaskPhase.torrent?]
    · simp [hphase, TaskPhase.rank]
  · have hdeliver := Link.deliver_rest .right hgot htaken hnil hwanted hhello
    have hserved : (N.torrents (R.home u)).get? (R.infoHash t) = some u := by
      rw [h.same]
      exact h.served
    refine h.advances_of_move (.read c .right (Handshake.wanted got)) .right
      (.routed u (R.seen t).peerId (R.seen t).reserved) []
      (Handshake.wanted got) rfl ?_ (by simp) ?_ (by simp) ?_
    · rw [Link.read, hphase, h.callee]
      simp only [Option.bind_some, hdeliver, Option.map_some, admits_hello hserved]
    · simp [TaskPhase.torrent?]
    · simp [hphase, TaskPhase.rank, hnil]

/-- The torrent that is called spawns its task. -/
theorem advances_of_routed (h : Meets R N c l t u) {id : PeerId} {reserved : Vector UInt8 8}
    (hphase : l.phase .right = .routed u id reserved) : Advances R N c l t u := by
  refine h.advances_of_move (.append c) .right
    (.greeting u (some id) (some reserved) (R.hello u).toBytes) [] 0 rfl ?_
    (by simp) ?_ (by simp) ?_
  · rw [Link.append, hphase]
    simp only [h.running.2, if_true, Link.setPhase, Roster.greets, if_pos (Link.hello_ne_nil u)]
  · simp [TaskPhase.torrent?]
  · simp [hphase, TaskPhase.rank]

/-- It writes its handshake. -/
theorem advances_of_answering (h : Meets R N c l t u) {reserved : Vector UInt8 8} {rest : Bytes}
    (hphase : l.phase .right = .greeting u (some (R.seen t).peerId) (some reserved) rest)
    (hrest : rest ≠ []) : Advances R N c l t u := by
  have hpos := List.length_pos_iff.2 hrest
  have hid : connectedId (R.peerId (R.home u)) (some (R.seen t).peerId) none = .ok (R.seen t).peerId :=
    if_neg h.other.2
  refine h.advances_of_move (.write c .right rest.length) .right
    (.asking u (R.seen t).peerId reserved) rest 0 rfl ?_ (by simp) ?_
    (by simp) ?_
  · rw [Link.write, hphase]
    simp [hpos, Roster.greets, hid, TaskPhase.ofOutcome]
  · simp [TaskPhase.torrent?]
  · simp [hphase, TaskPhase.rank]

/-- The engine that is called comes to the stream, once it has given up on the one that it reads. -/
theorem advances_of_queued (h : Meets R N c l t u) (hN : N.Sound R) (hphase : l.phase .right = .queued) :
    Advances R N c l t u := by
  have hadmit : ∀ {M : Network τ ν κ}, Meets R M c l t u → M.handling (R.home u) = none →
      ∃ P, M.step R (.accept c) = some P ∧ Meets R P c (l.setPhase .right (.admitted [])) t u := by
    intro M hM hidle
    refine ⟨_, ?_, hM.after .right (.admitted []) [] 0 (M :=
      { M.setLink c (l.setPhase .right (.admitted [])) with
        handling := Function.update M.handling (R.home u) (some c) }) (by simp [Link.setPhase]) rfl rfl
      (by simp) (by simp [TaskPhase.torrent?]) (by simp) ?_ ?_⟩
    · simp [Network.step, hM.link, hM.callee, hphase, hidle]
    · intro hpos
      rw [Link.after_phase_of_ne _ _ _ _ _ (by decide)] at hpos
      exact hM.freeLeft hpos
    · intro _
      exact hM.freeRight (by simp [hphase, TaskPhase.rank])
  have hrank := Link.rank_after l .right (.admitted []) [] 0
  rw [hphase] at hrank
  simp only [TaskPhase.rank, if_true] at hrank
  cases hhandling : N.handling (R.home u) with
  | none =>
      obtain ⟨P, hstep, hmeets⟩ := hadmit h hhandling
      refine ⟨[.accept c], P, _, by simp, by simp [hstep], hmeets, rfl, ?_⟩
      simp only [List.length_singleton, Link.setPhase]
      omega
  | some d =>
      -- the engine reads another handshake; its peer may never write it
      obtain ⟨k, got, hk, hcallee, hadmitted⟩ := (hN.handles _ d).1 hhandling
      have hdc : d ≠ c := by
        rintro rfl
        rw [h.link, Option.some.injEq] at hk
        rw [← hk, hphase] at hadmitted
        cases hadmitted
      obtain ⟨M, hM, hidle, hlink, htorrents, hrunning, hpeers⟩ : ∃ M,
          N.step R (.timeout d .right) = some M ∧ M.handling (R.home u) = none ∧
            M.link c = N.link c ∧ M.torrents = N.torrents ∧ M.running = N.running ∧ M.peers = N.peers := by
        refine ⟨(N.setLink d (k.setPhase .right (.ended (some (.peerTimeout
          (max (R.handshakeTimeout (R.home u)) 1)))))).release d, ?_, ?_, ?_, rfl, rfl, rfl⟩
        · simp [Network.step, Network.move, hk, Link.owner, hcallee, Link.fail, hadmitted, Link.setPhase]
        · simp [Network.release, hhandling]
        · simp [Function.update_of_ne (Ne.symm hdc)]
      have hmeets : Meets R M c l t u :=
        { h with
          link := hlink.trans h.link
          served := by rw [htorrents]; exact h.served
          running := by rw [hrunning]; exact h.running
          freeLeft := by rw [hpeers]; exact h.freeLeft
          freeRight := by rw [hpeers]; exact h.freeRight }
      obtain ⟨P, hstep, hmeets⟩ := hadmit hmeets hidle
      refine ⟨[.timeout d .right, .accept c], P, _, by simp, by simp [hM, hstep], hmeets, rfl, ?_⟩
      simp only [List.length_cons, List.length_nil, Link.setPhase]
      omega

/-- **A handshake that is not done can be brought on.** -/
theorem advances (h : Meets R N c l t u) (hN : N.Sound R) (hrank : 0 < l.rank) :
    Advances R N c l t u := by
  have hleft := hN.links c l h.link .left
  have hright := hN.links c l h.link .right
  have hcallee : l.owner R .right ≠ none := by simp [Link.owner, h.callee]
  -- what the other end has heard, this end has written
  have hsaidRight : ∀ {h' : Handshake}, l.Heard .left (R.infoHash t) h' →
      (R.hello u).toBytes <+: l.sent .right := by
    intro h' hheard
    have hlong := hheard.read.length_le
    rw [length_toBytes_of_magic hheard.protocol] at hlong
    obtain ⟨u', hu', hhello⟩ := Link.hello_of_long .right hright (h.alive .right) hcallee hlong
    rw [← h.mine.2 u' hu']
    exact hhello
  have hontoRight : (R.hello t).toBytes <+: l.sent .left → (l.phase .left).rank = 0 ∨
      (∃ got, l.phase .left = .reading t l.known got ∧ got <+: l.sent .right ∧
        l.taken .left = got.length ∧ 0 < Handshake.wanted got) → Advances R N c l t u := by
    intro hhello hafter
    generalize hphase : l.phase .right = p at hright
    cases hright with
    | foreign hnone => exact absurd hnone hcallee
    | queued hsent htaken => exact h.advances_of_queued hN hphase
    | admitted hsent hgot htaken hwanted =>
        exact h.advances_of_admitted hphase hgot htaken hwanted hhello
    | @routed u' h' hsent howner hheard =>
        obtain rfl := h.mine.2 u' (by rw [hphase]; rfl)
        exact h.advances_of_routed hphase
    | @answers u' h' rest howner hsent hrest hheard =>
        obtain rfl := h.mine.2 u' (by rw [hphase]; rfl)
        obtain rfl := hheard.eq_seen hhello
        exact h.advances_of_answering hphase hrest
    | @asking _ u' h' howner hsent hheard hother =>
        obtain rfl := h.mine.2 u' (by rw [hphase]; rfl)
        obtain rfl := hheard.eq_seen hhello
        exact h.advances_of_register .right hphase rfl
    | @registered _ u' h' howner hsent hheard hother =>
        obtain rfl := h.mine.2 u' (by rw [hphase]; rfl)
        rcases hafter with hzero | ⟨got, hreading, hgot, htaken, hwanted⟩
        · rw [Link.rank, hzero, hphase] at hrank
          exact absurd hrank (lt_irrefl 0)
        · exact h.advances_of_reading hreading hgot htaken hwanted hsent
    | ended hdiscreet => exact absurd hphase (h.alive _ _)
  generalize hphase : l.phase .left = p at hleft
  have hmine := h.mine.1
  rw [hphase] at hmine
  cases hleft with
  | foreign hnone => cases hmine
  | @calls t' rest howner hsent hrest htaken =>
      cases hmine
      exact h.advances_of_calling hphase hrest
  | @reading t' got howner hsent hgot htaken hwanted =>
      cases hmine
      exact hontoRight (by rw [hsent]) (.inr ⟨got, hphase, hgot, htaken, hwanted⟩)
  | @asking _ t' h' howner hsent hheard hother =>
      cases hmine
      obtain rfl := hheard.eq_seen (hsaidRight hheard)
      exact h.advances_of_register .left hphase rfl
  | @registered _ t' h' howner hsent hheard hother =>
      cases hmine
      exact hontoRight hsent (.inl (by rw [hphase]; rfl))
  | ended hdiscreet => exact absurd hphase (h.alive _ _)

theorem can_finish (hN : N.Sound R) (h : Meets R N c l t u) : ∃ inputs : List (NetworkInput τ ν κ),
    ∃ M, inputs.length ≤ l.rank ∧ inputs.foldlM (Network.step R) N = some M ∧
      (M.peers t).get? (l.known.getD (R.seen u).peerId) = some (c, .left) ∧
      (M.peers u).get? (R.seen t).peerId = some (c, .right) := by
  induction hk : l.rank using Nat.strong_induction_on generalizing N l with
  | h k ih =>
      subst hk
      rcases Nat.eq_zero_or_pos l.rank with hzero | hpos
      · exact ⟨[], N, Nat.zero_le _, rfl, h.done hN hzero⟩
      · obtain ⟨inputs, M, m, hne, hrun, hmeets, hknown, hfewer⟩ := h.advances hN hpos
        have hM : M.Sound R := Network.Sound.foldlM hN hrun
        have hlen := List.length_pos_iff.2 hne
        obtain ⟨more, P, hmore, hrun', hpeers⟩ := ih m.rank (by omega) hM hmeets rfl
        rw [hknown] at hpeers
        refine ⟨inputs ++ more, P, ?_, ?_, hpeers⟩
        · rw [List.length_append]
          omega
        · rw [List.foldlM_append, hrun]
          exact hrun'

end Meets

/-- **A handshake is never stuck.**  In whatever state of the network a torrent meets another: as long as neither of
their tasks has failed, at most eleven more steps bring both to take the other in, whatever has happened before. -/
theorem handshake_can_finish [DecidableEq τ] [DecidableEq ν] [DecidableEq κ] (R : Roster τ ν)
    (N : Network τ ν κ) (hN : (networkSystem R).Reach (fun _ _ => True) N) {c : κ} {l : Link τ ν}
    {t u : τ} (h : Meets R N c l t u) : ∃ inputs : List (NetworkInput τ ν κ),
      ∃ M, inputs.length ≤ 11 ∧ inputs.foldlM (Network.step R) N = some M ∧
        (M.peers t).get? (l.known.getD (PeerId.ofId (R.peerId (R.home u)).id)) = some (c, .left) ∧
        (M.peers u).get? (PeerId.ofId (R.peerId (R.home t)).id) = some (c, .right) := by
  have hsound := sound_of_reach hN
  obtain ⟨inputs, M, hlen, hrun, hpeers⟩ := h.can_finish hsound
  exact ⟨inputs, M, hlen.trans (h.rank_le hsound), hrun, hpeers⟩

/-! ### Two torrents meet -/

namespace Sample

/-- The ids of two engines. -/
def shakingId (node : Bool) : PeerId :=
  .ofId (Vector.replicate 20 (if node then 2 else 1))

/-- Two engines with a torrent each, of the same hash. -/
def shakers : Roster Bool Bool := ⟨id, fun _ => Vector.replicate 20 7, shakingId, fun _ => 5⟩

/-- One of them calls the other. -/
def meeting : List (NetworkInput Bool Bool Unit) :=
  [.addTorrent false, .addTorrent true, .dial () false none (some true)]

/-- The bytes come in pieces, and the one that is called is the first to be done. -/
def shaking : List (NetworkInput Bool Bool Unit) :=
  meeting ++
    [.write () .left 30, .accept (), .read () .right 1, .read () .right 20, .write () .left 38,
      .read () .right 47, .append (), .write () .right 68, .register () .right true,
      .talk () .right [0, 0, 0, 0], .read () .left 1, .read () .left 67, .register () .left true]

/-- Both have taken the other in. -/
def shaken (N : Network Bool Bool Unit) : Bool :=
  match N.link () with
  | none => false
  | some l =>
      l.phase .left == .registered false (shakingId true) (shakers.hello true).reserved &&
        l.phase .right == .registered true (shakingId false) (shakers.hello false).reserved &&
          (l.sent .right).drop 68 == [0, 0, 0, 0]

/-- The call has been made, and nothing has been written. -/
def called (N : Network Bool Bool Unit) : Bool :=
  match N.link () with
  | none => false
  | some l =>
      l.phase .left == .greeting false none none (shakers.hello false).toBytes &&
        l.phase .right == .queued && l.callee == some true && l.known == none

theorem exists_shaken : ∃ N, (networkSystem shakers).Reach (fun _ _ => True) N ∧ shaken N = true :=
  System.Reach.exists_foldlM (S := networkSystem shakers) (f := Network.step shakers) (fun _ _ _ h => h)
    (.init rfl) shaking (by decide)

theorem of_shaken {N : Network Bool Bool Unit} (h : shaken N = true) : ∃ l, N.link () = some l ∧
    l.phase .left = .registered false (shakingId true) (shakers.hello true).reserved ∧
      l.phase .right = .registered true (shakingId false) (shakers.hello false).reserved ∧
        (l.sent .right).drop 68 = [0, 0, 0, 0] := by
  unfold shaken at h
  cases hlink : N.link () with
  | none => simp [hlink] at h
  | some l =>
      simp only [hlink, Bool.and_eq_true, beq_iff_eq] at h
      exact ⟨l, rfl, h.1.1, h.1.2, h.2⟩

/-- Before anything has been written, the two meet. -/
theorem meets_of_called {N : Network Bool Bool Unit} (hlink : called N = true)
    (hserved : (N.torrents true).get? (shakers.infoHash true) = some true)
    (hrunning : N.running false = true ∧ N.running true = true)
    (hpeers : (N.peers false).get? (shakingId true) = none ∧ (N.peers true).get? (shakingId false) = none) :
    ∃ l, l.known = none ∧ Meets shakers N () l false true := by
  unfold called at hlink
  cases hl : N.link () with
  | none => simp [hl] at hlink
  | some l =>
      simp only [hl, Bool.and_eq_true, beq_iff_eq] at hlink
      obtain ⟨⟨⟨hleft, hright⟩, hcallee⟩, hknown⟩ := hlink
      refine ⟨l, hknown, hl, hcallee, by decide, rfl, hserved, hrunning, ?_, ?_, ?_, ?_, ?_⟩
      · rw [hknown]
        decide
      · intro side error
        cases side <;> simp [hleft, hright]
      · simp [hleft, hright, TaskPhase.torrent?]
      · rw [hknown]
        exact fun _ => hpeers.1
      · exact fun _ => hpeers.2

end Sample

/-- Each of two torrents that have shaken hands is a peer of the other. -/
theorem peers_shook_hands_sample :
    ∃ N l h, (networkSystem Sample.shakers).Reach (fun _ _ => True) N ∧
      (N.peers true).get? (Sample.shakingId false) = some ((), .right) ∧ N.link () = some l ∧
        l.Heard .right (Vector.replicate 20 7) h ∧ l.taken .right = 68 := by
  obtain ⟨N, hreach, hshaken⟩ := Sample.exists_shaken
  obtain ⟨l, hlink, -, hright, -⟩ := Sample.of_shaken hshaken
  have hpeer : (N.peers true).get? (Sample.shakingId false) = some ((), .right) :=
    ((sound_of_reach hreach).peers true _ ((), .right)).2 ⟨l, _, hlink, hright⟩
  obtain ⟨k, h, hk, -, hheard, htaken, -⟩ := (peers_shook_hands Sample.shakers N hreach).1 true _ () .right hpeer
  exact ⟨N, k, h, hreach, hpeer, hk, hheard, htaken⟩

/-- What the one has written behind its handshake is there for the other. -/
theorem handshakes_agree_sample :
    ∃ N l, (networkSystem Sample.shakers).Reach (fun _ _ => True) N ∧ N.link () = some l ∧
      (l.sent .right).drop 68 = [0, 0, 0, 0] ∧
        l.sent .right = (Sample.shakers.hello true).toBytes ++ l.ahead .left := by
  obtain ⟨N, hreach, hshaken⟩ := Sample.exists_shaken
  obtain ⟨l, hlink, hleft, hright, hsent⟩ := Sample.of_shaken hshaken
  exact ⟨N, l, hreach, hlink, hsent,
    (handshakes_agree Sample.shakers N hreach hlink hleft hright).2.2.2.2.2.2⟩

/-- From the first call on, the handshake can be brought to its end. -/
theorem handshake_can_finish_sample :
    ∃ N, (networkSystem Sample.shakers).Reach (fun _ _ => True) N ∧ Sample.called N = true ∧
      ∃ inputs : List (NetworkInput Bool Bool Unit), ∃ M, inputs.length ≤ 11 ∧
        inputs.foldlM (Network.step Sample.shakers) N = some M ∧
          (M.peers false).get? (Sample.shakingId true) = some ((), .left) := by
  obtain ⟨N, hreach, hN⟩ := System.Reach.exists_foldlM (S := networkSystem Sample.shakers)
    (f := Network.step Sample.shakers) (fun _ _ _ h => h) (.init rfl) Sample.meeting
    (P := fun N => Sample.called N && ((N.torrents true).get? (Sample.shakers.infoHash true) == some true &&
      (N.running false && N.running true && ((N.peers false).get? (Sample.shakingId true) == none &&
        (N.peers true).get? (Sample.shakingId false) == none)))) (by decide)
  simp only [Bool.and_eq_true, beq_iff_eq] at hN
  obtain ⟨hcalled, hserved, hrunning, hpeers⟩ := hN
  obtain ⟨l, hknown, hmeets⟩ := Sample.meets_of_called hcalled hserved hrunning hpeers
  obtain ⟨inputs, M, hlen, hrun, hleft, -⟩ := handshake_can_finish Sample.shakers N hreach hmeets
  rw [hknown] at hleft
  exact ⟨N, hreach, hcalled, inputs, M, hlen, hrun, hleft⟩

end Tortillas
