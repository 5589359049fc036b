/-
**Who may download from us.**

`torrent/choking.rs` and `torrent/choking_flow.rs`: in each round the torrent asks its peer actors for
statistics, unchokes the best of those that are interested, as many as there are upload slots, and chokes the
others.  When more are interested than there are slots, the last slot goes to the others by turns.

A peer actor that does not answer in time is left out of the round.  It is neither chosen nor choked, so that
it keeps its slot if it has one, and the slot is given away a second time.

A peer actor handles its messages in their order: it has handled every `SetChoked` that was sent before the
question when it answers.

Main definitions:

* `selectUnchokedPeers`, `ChokingScheduler.decide` — the choice of a round;
* `ChokingPeer`, `ChokingTorrent` — the peers with the `SetChoked` that wait for them, and the torrent;
* `ChokingTorrent.rechoke` — a round;
* `ChokingTorrent.unchoked` — how many peers are unchoked when all messages have been handled;
* `ChokingTorrent.Spares` — the slots of the silent peers are not given away.

Main results:

* `length_selectUnchokedPeers` — as many peers are chosen as there are slots and interested peers;
* `ChokingTorrent.unchoked_rechoke` — the unchoked peers after a round, exactly;
* `upload_slots_kept` — **no more peers are unchoked than there are slots**, as long as each round spares the
  slots of silent peers;
* `silent_peer_keeps_slot` — two peers are unchoked where there is one slot.
-/

import Tortillas.PeerActor
import Tortillas.Transition

set_option relaxedAutoImplicit false
set_option autoImplicit false

namespace Tortillas

/-! ### The choice -/

structure PeerStats where
  id : PeerId
  interested : Bool
  clientChoking : Bool
  downloadRate : UInt64
  uploadRate : UInt64

def rateFor (peer : PeerStats) : TorrentState → UInt64
  | .downloading => peer.downloadRate
  | .seeding => peer.uploadRate
  | _ => 0

/-- The order of the candidates: by their rates, highest first, and then by their ids. -/
def comesFirst (state : TorrentState) (left right : PeerStats) : Bool :=
  if rateFor right state < rateFor left state then true
  else if rateFor left state < rateFor right state then false
  else decide (left.id.id.toList ≤ right.id.id.toList)

structure ChokingDecision where
  unchoked : List PeerId
  optimistic : Option PeerId

def selectUnchokedPeers (peers : List PeerStats) (state : TorrentState) (uploadSlots optimisticIndex : ℕ) :
    ChokingDecision :=
  let candidates := (peers.filter (·.interested)).mergeSort (comesFirst state)
  if uploadSlots = 0 then ⟨[], none⟩
  else if uploadSlots < candidates.length then
    let regularSlots := uploadSlots - 1
    let regular := (candidates.take regularSlots).map (·.id)
    let optimisticCandidates := candidates.drop regularSlots
    match optimisticCandidates[optimisticIndex % optimisticCandidates.length]? with
    | some peer => ⟨regular ++ [peer.id], some peer.id⟩
    | none => ⟨regular, none⟩
  else ⟨(candidates.take uploadSlots).map (·.id), none⟩

structure ChokingScheduler where
  uploadSlots : ℕ
  optimisticUnchokeRounds : ℕ
  optimisticIndex : ℕ
  roundsSinceOptimisticRotation : ℕ

namespace ChokingScheduler

def new (uploadSlots optimisticUnchokeRounds : ℕ) : ChokingScheduler :=
  ⟨uploadSlots, max optimisticUnchokeRounds 1, 0, 0⟩

/-- The turns of the optimistic slot go on, while there is one. -/
def rotate (s : ChokingScheduler) (optimistic : Bool) : ChokingScheduler :=
  if optimistic then
    if s.optimisticUnchokeRounds ≤ s.roundsSinceOptimisticRotation + 1 then
      { s with
        roundsSinceOptimisticRotation := 0
        optimisticIndex := (s.optimisticIndex + 1) % (usizeMax + 1) }
    else { s with roundsSinceOptimisticRotation := s.roundsSinceOptimisticRotation + 1 }
  else { s with roundsSinceOptimisticRotation := 0, optimisticIndex := 0 }

def decide (s : ChokingScheduler) (peers : List PeerStats) (state : TorrentState) :
    ChokingScheduler × ChokingDecision :=
  let decision := selectUnchokedPeers peers state s.uploadSlots s.optimisticIndex
  (s.rotate decision.optimistic.isSome, decision)

@[simp] theorem uploadSlots_rotate (s : ChokingScheduler) (optimistic : Bool) :
    (s.rotate optimistic).uploadSlots = s.uploadSlots := by
  unfold rotate
  split
  · split <;> rfl
  · rfl

end ChokingScheduler

/-! ### The chosen -/

section Selection

variable (peers : List PeerStats) (state : TorrentState) (uploadSlots optimisticIndex : ℕ)

/-- How many peers are interested. -/
def interestedCount (peers : List PeerStats) : ℕ := peers.countP (·.interested)

theorem length_candidates :
    ((peers.filter (·.interested)).mergeSort (comesFirst state)).length = interestedCount peers := by
  rw [List.length_mergeSort, interestedCount, List.countP_eq_length_filter]

/-- **As many peers are chosen as there are slots, or interested peers.** -/
theorem length_selectUnchokedPeers :
    (selectUnchokedPeers peers state uploadSlots optimisticIndex).unchoked.length =
      min uploadSlots (interestedCount peers) := by
  have hlen := length_candidates peers state
  unfold selectUnchokedPeers
  generalize (peers.filter (·.interested)).mergeSort (comesFirst state) = candidates at hlen
  dsimp only
  split
  · rename_i hzero
    simp [hzero]
  · split
    · rename_i hslots hmore
      split
      · simp only [List.length_append, List.length_map, List.length_take, List.length_singleton]
        omega
      · rename_i hnone
        rw [List.getElem?_eq_none_iff, List.length_drop] at hnone
        have hlt := Nat.mod_lt optimisticIndex (show 0 < candidates.length - (uploadSlots - 1) by omega)
        omega
    · simp only [List.length_map, List.length_take]
      omega

/-- Those that are chosen are some of those that answered, and each is chosen once. -/
theorem sublist_selectUnchokedPeers :
    ∃ chosen : List PeerStats, chosen.Sublist ((peers.filter (·.interested)).mergeSort (comesFirst state)) ∧
      (selectUnchokedPeers peers state uploadSlots optimisticIndex).unchoked = chosen.map (·.id) := by
  unfold selectUnchokedPeers
  generalize (peers.filter (·.interested)).mergeSort (comesFirst state) = candidates
  dsimp only
  split
  · exact ⟨[], List.nil_sublist _, rfl⟩
  · split
    · split
      · rename_i peer hpeer
        refine ⟨candidates.take (uploadSlots - 1) ++ [peer], ?_, by simp⟩
        have hmem : peer ∈ candidates.drop (uploadSlots - 1) := List.mem_of_getElem? hpeer
        have happ := (List.Sublist.refl (candidates.take (uploadSlots - 1))).append
          (List.singleton_sublist.2 hmem)
        rwa [List.take_append_drop] at happ
      · exact ⟨_, List.take_sublist _ _, rfl⟩
    · exact ⟨_, List.take_sublist _ _, rfl⟩

variable {peers state uploadSlots optimisticIndex}

theorem mem_of_mem_unchoked {id : PeerId}
    (h : id ∈ (selectUnchokedPeers peers state uploadSlots optimisticIndex).unchoked) :
    id ∈ peers.map (·.id) := by
  obtain ⟨chosen, hsub, heq⟩ := sublist_selectUnchokedPeers peers state uploadSlots optimisticIndex
  rw [heq, List.mem_map] at h
  obtain ⟨peer, hpeer, rfl⟩ := h
  have hmem := hsub.subset hpeer
  rw [List.mem_mergeSort, List.mem_filter] at hmem
  exact List.mem_map_of_mem hmem.1

theorem nodup_unchoked (h : (peers.map (·.id)).Nodup) :
    (selectUnchokedPeers peers state uploadSlots optimisticIndex).unchoked.Nodup := by
  obtain ⟨chosen, hsub, heq⟩ := sublist_selectUnchokedPeers peers state uploadSlots optimisticIndex
  have hperm := List.mergeSort_perm (peers.filter (·.interested)) (comesFirst state)
  have hfilter : ((peers.filter (·.interested)).map (·.id)).Nodup := h.sublist (List.filter_sublist.map _)
  rw [heq]
  exact ((hperm.map _).nodup_iff.2 hfilter).sublist (hsub.map _)

end Selection

/-! ### The torrent and its peers -/

/-- A peer actor, with the `SetChoked` that wait in its mailbox.  Other messages are left out: none of them
touches the two flags. -/
structure ChokingPeer where
  actor : PeerActor
  mailbox : List Bool

namespace ChokingPeer

/-- What is sent goes out. -/
def sentEnv : PeerEnv := ⟨true, [], none, none, none⟩

/-- The actor when it has handled everything that waits. -/
def drained (p : ChokingPeer) : PeerActor :=
  p.mailbox.foldl (fun a choked => a.setChoked choked sentEnv) p.actor

/-- Whether the peer is choked when everything has been handled. -/
def choked (p : ChokingPeer) : Bool := p.drained.amChoking

/-- `SetChoked` is put into the mailbox. -/
def post (p : ChokingPeer) (choked : Bool) : ChokingPeer := { p with mailbox := p.mailbox ++ [choked] }

/-- The next `SetChoked` is handled. -/
def next (p : ChokingPeer) : ChokingPeer :=
  match p.mailbox with
  | [] => p
  | choked :: rest => ⟨p.actor.setChoked choked sentEnv, rest⟩

/-- `Interested` or `NotInterested` comes from the remote. -/
def hear (p : ChokingPeer) (interested : Bool) : ChokingPeer :=
  match p.actor.handle sentEnv (if interested then .interested else .notInterested) with
  | some a => { p with actor := a }
  | none => p

end ChokingPeer

/-- The answer of a peer to `Stats`, with the rates it has measured. -/
structure StatsAnswer where
  id : PeerId
  downloadRate : UInt64
  uploadRate : UInt64

structure ChokingTorrent where
  peers : HashMap PeerId ChokingPeer
  state : TorrentState
  chokingScheduler : ChokingScheduler

inductive ChokingInput
  | connect (id : PeerId)
  | disconnect (id : PeerId)
  | setState (state : TorrentState)
  | hear (id : PeerId) (interested : Bool)
  /-- A peer actor handles the next `SetChoked`. -/
  | handle (id : PeerId)
  /-- A round, with the answers that come in time, in the order in which they come. -/
  | rechoke (answers : List StatsAnswer)

namespace ChokingTorrent

/-- Change a peer, if it is there. -/
def mapPeer (id : PeerId) (f : ChokingPeer → ChokingPeer) (s : ChokingTorrent) : ChokingTorrent :=
  match s.peers.get? id with
  | some p => { s with peers := s.peers.insert id (f p) }
  | none => s

/-- The peers that answer have handled everything they were sent. -/
def drain (answers : List StatsAnswer) (s : ChokingTorrent) : ChokingTorrent :=
  { s with
    peers := s.peers.retain fun id p => some (if id ∈ answers.map (·.id) then ⟨p.drained, []⟩ else p) }

/-- The statistics of a peer that answers. -/
def statsOf (s : ChokingTorrent) (answer : StatsAnswer) : Option PeerStats :=
  (s.peers.get? answer.id).map fun p =>
    { id := p.actor.id
      interested := p.actor.peerInterested
      clientChoking := p.actor.amChoking
      downloadRate := answer.downloadRate
      uploadRate := answer.uploadRate }

def peerStats (s : ChokingTorrent) (answers : List StatsAnswer) : List PeerStats :=
  answers.filterMap s.statsOf

/-- The loop over the statistics: one peer. -/
def tell (unchoked : List PeerId) (s : ChokingTorrent) (stats : PeerStats) : ChokingTorrent :=
  let choked := !decide (stats.id ∈ unchoked)
  if stats.clientChoking = choked then s else s.mapPeer stats.id (·.post choked)

/-- `rechoke_peers` -/
def rechoke (answers : List StatsAnswer) (s : ChokingTorrent) : ChokingTorrent :=
  if s.state.isTransferActive = false then s
  else
    let asked := s.drain answers
    let stats := asked.peerStats answers
    let decided := asked.chokingScheduler.decide stats asked.state
    stats.foldl (tell decided.2.unchoked) { asked with chokingScheduler := decided.1 }

/-- The state is changed; a torrent that stops chokes everyone. -/
def setState (state : TorrentState) (s : ChokingTorrent) : ChokingTorrent :=
  if state = .paused ∧ s.state.isTransferActive = true then
    { s with state := state, peers := s.peers.retain fun _ p => some (p.post true) }
  else { s with state := state }

def apply (s : ChokingTorrent) : ChokingInput → ChokingTorrent
  | .connect id =>
      if s.peers.contains id then s else { s with peers := s.peers.insert id ⟨PeerActor.new id, []⟩ }
  | .disconnect id => { s with peers := s.peers.erase id }
  | .setState state => s.setState state
  | .hear id interested => s.mapPeer id (·.hear interested)
  | .handle id => s.mapPeer id (·.next)
  | .rechoke answers => s.rechoke answers

/-- Each registered peer is asked once. -/
def Admits (s : ChokingTorrent) : ChokingInput → Prop
  | .rechoke answers =>
      (answers.map (·.id)).Nodup ∧ ∀ answer ∈ answers, s.peers.contains answer.id = true
  | _ => True

/-- The peers that are unchoked when everything has been handled. -/
def unchoked (s : ChokingTorrent) : ℕ := s.peers.weight fun _ p => if p.choked then 0 else 1

/-- Those of them that do not answer. -/
def silentUnchoked (s : ChokingTorrent) (answers : List StatsAnswer) : ℕ :=
  s.peers.weight fun id p => if id ∈ answers.map (·.id) ∨ p.choked = true then 0 else 1

/-- A round spares the slots of the silent peers: they and the interested ones among those that answer do not
need more slots than there are. -/
def Spares (s : ChokingTorrent) : ChokingInput → Prop
  | .rechoke answers =>
      s.state.isTransferActive = true →
        s.silentUnchoked answers +
          min s.chokingScheduler.uploadSlots (interestedCount ((s.drain answers).peerStats answers)) ≤
            s.chokingScheduler.uploadSlots
  | _ => True

end ChokingTorrent

/-- The torrent and its peers as a transition system. -/
def chokingSystem : System ChokingTorrent ChokingInput where
  init s := ∃ uploadSlots rounds, s = ⟨∅, .added, .new uploadSlots rounds⟩
  step s i t := s.Admits i ∧ t = s.apply i

/-! ### The flags -/

namespace ChokingPeer

variable (p : ChokingPeer) (choked : Bool)

@[simp] theorem amChoking_setChoked (a : PeerActor) : (a.setChoked choked sentEnv).amChoking = choked := by
  unfold PeerActor.setChoked
  split
  · assumption
  · rfl

@[simp] theorem id_setChoked (a : PeerActor) : (a.setChoked choked sentEnv).id = a.id := by
  unfold PeerActor.setChoked
  split
  · rfl
  · exact PeerActor.id_send a _ _

@[simp] theorem choked_post : (p.post choked).choked = choked := by
  simp [ChokingPeer.choked, drained, post, List.foldl_append]

@[simp] theorem choked_next : p.next.choked = p.choked := by
  unfold next
  split
  · rfl
  · rename_i hmail
    simp [ChokingPeer.choked, drained, hmail]

theorem amChoking_foldl {a b : PeerActor} (h : a.amChoking = b.amChoking) (mailbox : List Bool) :
    (mailbox.foldl (fun a choked => a.setChoked choked sentEnv) a).amChoking =
      (mailbox.foldl (fun a choked => a.setChoked choked sentEnv) b).amChoking := by
  induction mailbox generalizing a b with
  | nil => exact h
  | cons choked mailbox ih => exact ih (by simp)

@[simp] theorem choked_hear (interested : Bool) : (p.hear interested).choked = p.choked := by
  cases interested with
  | false => exact amChoking_foldl (a := { p.actor with peerInterested := false }) (b := p.actor) rfl p.mailbox
  | true => exact amChoking_foldl (a := { p.actor with peerInterested := true }) (b := p.actor) rfl p.mailbox

@[simp] theorem id_drained : p.drained.id = p.actor.id := by
  unfold drained
  generalize p.actor = a
  induction p.mailbox generalizing a with
  | nil => rfl
  | cons choked mailbox ih => rw [List.foldl_cons, ih, id_setChoked]

end ChokingPeer

namespace ChokingTorrent

variable {s : ChokingTorrent} {id : PeerId}

/-- Whether a peer is choked when everything has been handled. -/
def flag (s : ChokingTorrent) (id : PeerId) : Option Bool := (s.peers.get? id).map (·.choked)

/-- All flags. -/
def flags (s : ChokingTorrent) : HashMap PeerId Bool := s.peers.retain fun _ p => some p.choked

theorem get?_flags (s : ChokingTorrent) (id : PeerId) : s.flags.get? id = s.flag id := by
  rw [flags, HashMap.get?_retain, flag, Option.map_eq_bind]
  rfl

theorem unchoked_eq (s : ChokingTorrent) :
    s.unchoked = s.flags.weight fun _ choked => if choked then 0 else 1 := by
  rw [flags, HashMap.weight_retain, unchoked]
  rfl

theorem unchoked_congr {t : ChokingTorrent} (h : ∀ id, t.flag id = s.flag id) : t.unchoked = s.unchoked := by
  rw [unchoked_eq, unchoked_eq]
  refine HashMap.weight_ext (fun id => ?_) _
  rw [get?_flags, get?_flags, h]

theorem flag_mapPeer (f : ChokingPeer → ChokingPeer) (id' : PeerId) :
    (s.mapPeer id f).flag id' =
      if id' = id then (s.peers.get? id).map fun p => (f p).choked else s.flag id' := by
  unfold mapPeer
  cases hget : s.peers.get? id with
  | none =>
      dsimp only
      split
      · rename_i heq
        rw [flag, heq, hget]
        rfl
      · rfl
  | some p =>
      dsimp only
      rw [flag, HashMap.get?_insert]
      split
      · rfl
      · rfl

theorem flag_drain (answers : List StatsAnswer) (id : PeerId) : (s.drain answers).flag id = s.flag id := by
  rw [flag, drain, HashMap.get?_retain, flag]
  cases s.peers.get? id with
  | none => rfl
  | some p =>
      rw [Option.bind_some]
      split
      · rfl
      · rfl

/-- What a peer is told is what becomes of it. -/
theorem flag_tell {unchoked : List PeerId} {stats : PeerStats}
    (h : s.flag stats.id = some stats.clientChoking) (id : PeerId) :
    (s.tell unchoked stats).flag id =
      if id = stats.id then some (!decide (stats.id ∈ unchoked)) else s.flag id := by
  unfold tell
  dsimp only
  split
  · rename_i hsame
    split
    · rename_i heq
      rw [heq, h, hsame]
    · rfl
  · rw [flag_mapPeer]
    split
    · obtain ⟨p, hp, -⟩ := Option.map_eq_some_iff.1 h
      simp [hp]
    · rfl

theorem flag_foldl_tell {unchoked : List PeerId} {stats : List PeerStats}
    (hnodup : (stats.map (·.id)).Nodup) (h : ∀ st ∈ stats, s.flag st.id = some st.clientChoking)
    (id : PeerId) :
    (stats.foldl (tell unchoked) s).flag id =
      if id ∈ stats.map (·.id) then some (!decide (id ∈ unchoked)) else s.flag id := by
  induction stats generalizing s with
  | nil => rfl
  | cons st stats ih =>
      rw [List.map_cons, List.nodup_cons] at hnodup
      rw [List.forall_mem_cons] at h
      have htail : ∀ st' ∈ stats, (s.tell unchoked st).flag st'.id = some st'.clientChoking := by
        intro st' hst'
        have hne : st'.id ≠ st.id := by
          intro heq
          exact hnodup.1 (heq ▸ List.mem_map_of_mem hst')
        rw [flag_tell h.1, if_neg hne]
        exact h.2 st' hst'
      rw [List.foldl_cons, ih hnodup.2 htail, flag_tell h.1, List.map_cons]
      by_cases hid : id = st.id
      · subst hid
        simp [hnodup.1]
      · simp [hid]

/-! ### A round -/

/-- Peers are registered under their own ids. -/
def Named (s : ChokingTorrent) : Prop := ∀ id p, s.peers.get? id = some p → p.actor.id = id

theorem Named.drain (hs : s.Named) (answers : List StatsAnswer) : (s.drain answers).Named := by
  intro id p hp
  rw [ChokingTorrent.drain, HashMap.get?_retain] at hp
  obtain ⟨q, hq, hp⟩ := Option.bind_eq_some_iff.1 hp
  cases hp
  split
  · rw [ChokingPeer.id_drained]
    exact hs id q hq
  · exact hs id q hq

theorem contains_drain {answers : List StatsAnswer} :
    (s.drain answers).peers.contains id = s.peers.contains id := by
  rw [HashMap.contains, HashMap.contains, drain, HashMap.get?_retain]
  cases s.peers.get? id <;> rfl

/-- The statistics are those of the peers that answer. -/
theorem map_id_peerStats (hs : s.Named) {answers : List StatsAnswer}
    (h : ∀ answer ∈ answers, s.peers.contains answer.id = true) :
    (s.peerStats answers).map (·.id) = answers.map (·.id) := by
  unfold peerStats
  induction answers with
  | nil => rfl
  | cons answer answers ih =>
      rw [List.forall_mem_cons] at h
      obtain ⟨p, hp⟩ := Option.isSome_iff_exists.1 h.1
      rw [List.filterMap_cons, statsOf, hp]
      simp only [Option.map_some, List.map_cons, ih h.2, hs answer.id p hp]

/-- What a drained peer says of itself is so. -/
theorem flag_of_mem_peerStats (hs : s.Named) {answers : List StatsAnswer} {st : PeerStats}
    (h : st ∈ (s.drain answers).peerStats answers) :
    (s.drain answers).flag st.id = some st.clientChoking := by
  obtain ⟨answer, hanswer, hst⟩ := List.mem_filterMap.1 h
  obtain ⟨p, hp, rfl⟩ := Option.map_eq_some_iff.1 hst
  have hid : p.actor.id = answer.id := hs.drain answers answer.id p hp
  dsimp only
  rw [hid, flag, hp]
  rw [drain, HashMap.get?_retain] at hp
  obtain ⟨q, -, hp⟩ := Option.bind_eq_some_iff.1 hp
  rw [if_pos (List.mem_map_of_mem hanswer)] at hp
  cases hp
  rfl

theorem silentUnchoked_eq (answers : List StatsAnswer) :
    s.silentUnchoked answers =
      s.flags.weight fun id choked => if id ∈ answers.map (·.id) ∨ choked = true then 0 else 1 := by
  rw [flags, HashMap.weight_retain, silentUnchoked]
  rfl

/-- The flags of some peers are set anew, and the others stay. -/
theorem unchoked_of_flag {t : ChokingTorrent} {ids chosen : List PeerId} (hnodup : chosen.Nodup)
    (hsub : ∀ id ∈ chosen, id ∈ ids) (hthere : ∀ id ∈ ids, ∃ choked, s.flag id = some choked)
    (h : ∀ id, t.flag id = if id ∈ ids then some (!decide (id ∈ chosen)) else s.flag id) :
    t.unchoked = (s.flags.weight fun id choked => if id ∈ ids ∨ choked = true then 0 else 1) +
      chosen.length := by
  have hflags : ∀ id, t.flags.get? id =
      (s.flags.retain fun id choked => some (if id ∈ ids then !decide (id ∈ chosen) else choked)).get? id := by
    intro id
    rw [get?_flags, h, HashMap.get?_retain, get?_flags]
    split
    · rename_i hid
      obtain ⟨choked, hchoked⟩ := hthere id hid
      rw [hchoked, Option.bind_some]
    · cases s.flag id <;> rfl
  have hcontains : ∀ id ∈ chosen, s.flags.contains id = true := by
    intro id hid
    obtain ⟨choked, hchoked⟩ := hthere id (hsub id hid)
    rw [HashMap.contains, get?_flags, hchoked]
    rfl
  rw [unchoked_eq, HashMap.weight_ext hflags, HashMap.weight_retain, ← HashMap.weight_mem hnodup hcontains,
    ← HashMap.weight_add]
  refine HashMap.weight_congr ?_
  rintro ⟨id, choked⟩ -
  by_cases hid : id ∈ ids
  · by_cases hchosen : id ∈ chosen <;> simp [hid, hchosen]
  · have hnot : id ∉ chosen := mt (hsub id) hid
    cases choked <;> simp [hid, hnot]

/-- **The unchoked peers after a round**: those that have been chosen, and those that were unchoked before
and did not answer. -/
theorem unchoked_rechoke (hs : s.Named) {answers : List StatsAnswer} (hadmits : s.Admits (.rechoke answers))
    (hactive : s.state.isTransferActive = true) :
    (s.rechoke answers).unchoked = s.silentUnchoked answers +
      min s.chokingScheduler.uploadSlots (interestedCount ((s.drain answers).peerStats answers)) := by
  obtain ⟨hnodup, hthere⟩ := hadmits
  have hids : ((s.drain answers).peerStats answers).map (·.id) = answers.map (·.id) := by
    refine map_id_peerStats (hs.drain answers) fun answer h => ?_
    rw [contains_drain]
    exact hthere answer h
  have hflags : ∀ st ∈ (s.drain answers).peerStats answers,
      (s.drain answers).flag st.id = some st.clientChoking := fun _ h => flag_of_mem_peerStats hs h
  have hround : s.rechoke answers = _ := if_neg (by rw [hactive]; exact nofun)
  rw [hround]
  dsimp only [ChokingScheduler.decide]
  generalize hstats : (s.drain answers).peerStats answers = stats at hids hflags
  rw [← hids] at hnodup
  generalize hchosen : (selectUnchokedPeers stats (s.drain answers).state
    (s.drain answers).chokingScheduler.uploadSlots (s.drain answers).chokingScheduler.optimisticIndex) = decision
  have hlen : decision.unchoked.length = min s.chokingScheduler.uploadSlots (interestedCount stats) := by
    rw [← hchosen]
    exact length_selectUnchokedPeers _ _ _ _
  have hmem : ∀ id ∈ decision.unchoked, id ∈ stats.map (·.id) := by
    rw [← hchosen]
    exact fun id h => mem_of_mem_unchoked h
  have hnd : decision.unchoked.Nodup := by
    rw [← hchosen]
    exact nodup_unchoked hnodup
  have hthere' : ∀ id ∈ stats.map (·.id), ∃ choked, s.flag id = some choked := by
    intro id hid
    obtain ⟨st, hst, rfl⟩ := List.mem_map.1 hid
    exact ⟨_, (flag_drain answers st.id).symm.trans (hflags st hst)⟩
  rw [← hlen, silentUnchoked_eq, ← hids]
  refine unchoked_of_flag hnd hmem hthere' fun id => ?_
  refine Eq.trans (flag_foldl_tell hnodup ?_ id) ?_
  · exact hflags
  · rw [← flag_drain (s := s) answers id]
    rfl

/-! ### Runs -/

theorem Named.mapPeer (hs : s.Named) {f : ChokingPeer → ChokingPeer}
    (hf : ∀ p, (f p).actor.id = p.actor.id) : (s.mapPeer id f).Named := by
  unfold ChokingTorrent.mapPeer
  split
  · rename_i p hp
    intro id' q hq
    rcases HashMap.get?_of_get?_insert hq with ⟨rfl, rfl⟩ | ⟨-, hq⟩
    · rw [hf]
      exact hs _ p hp
    · exact hs id' q hq
  · exact hs

theorem mapPeer_chokingScheduler (f : ChokingPeer → ChokingPeer) :
    (s.mapPeer id f).chokingScheduler = s.chokingScheduler := by
  unfold mapPeer
  split <;> rfl

/-- The loop of a round keeps the names and the scheduler. -/
theorem Named.foldl_tell (hs : s.Named) (unchoked : List PeerId) (stats : List PeerStats) :
    (stats.foldl (tell unchoked) s).Named ∧
      (stats.foldl (tell unchoked) s).chokingScheduler = s.chokingScheduler := by
  induction stats generalizing s with
  | nil => exact ⟨hs, rfl⟩
  | cons st stats ih =>
      have htell : (s.tell unchoked st).Named ∧ (s.tell unchoked st).chokingScheduler = s.chokingScheduler := by
        unfold tell
        dsimp only
        split
        · exact ⟨hs, rfl⟩
        · exact ⟨hs.mapPeer fun _ => rfl, mapPeer_chokingScheduler _⟩
      obtain ⟨hnamed, hsame⟩ := ih htell.1
      exact ⟨hnamed, hsame.trans htell.2⟩

/-- What is the same after every step: the names, and the number of slots. -/
theorem Named.apply (hs : s.Named) (i : ChokingInput) :
    (s.apply i).Named ∧ (s.apply i).chokingScheduler.uploadSlots = s.chokingScheduler.uploadSlots := by
  cases i with
  | connect id =>
      unfold ChokingTorrent.apply
      dsimp only
      split
      · exact ⟨hs, rfl⟩
      · refine ⟨fun id' p hp => ?_, rfl⟩
        rcases HashMap.get?_of_get?_insert hp with ⟨rfl, rfl⟩ | ⟨-, hp⟩
        · rfl
        · exact hs id' p hp
  | disconnect id => exact ⟨fun id' p hp => hs id' p (HashMap.get?_of_get?_erase hp).2, rfl⟩
  | setState state =>
      change (s.setState state).Named ∧ (s.setState state).chokingScheduler.uploadSlots = _
      unfold setState
      split
      · refine ⟨fun id p hp => ?_, rfl⟩
        rw [HashMap.get?_retain] at hp
        obtain ⟨q, hq, hp⟩ := Option.bind_eq_some_iff.1 hp
        cases hp
        exact hs id q hq
      · exact ⟨hs, rfl⟩
  | hear id interested =>
      refine ⟨hs.mapPeer fun p => ?_, congrArg _ (mapPeer_chokingScheduler _)⟩
      cases interested <;> rfl
  | handle id =>
      refine ⟨hs.mapPeer fun p => ?_, congrArg _ (mapPeer_chokingScheduler _)⟩
      unfold ChokingPeer.next
      split
      · rfl
      · exact ChokingPeer.id_setChoked _ _
  | rechoke answers =>
      change (s.rechoke answers).Named ∧ (s.rechoke answers).chokingScheduler.uploadSlots = _
      unfold rechoke
      split
      · exact ⟨hs, rfl⟩
      · have hdrain : ∀ scheduler, ({ s.drain answers with chokingScheduler := scheduler } : ChokingTorrent).Named :=
          fun scheduler => hs.drain answers
        obtain ⟨hnamed, hsame⟩ := (hdrain _).foldl_tell _ _
        refine ⟨hnamed, ?_⟩
        rw [hsame]
        exact ChokingScheduler.uploadSlots_rotate _ _

/-- A peer is changed, but not whether it is choked. -/
theorem unchoked_mapPeer {f : ChokingPeer → ChokingPeer} (hf : ∀ p, (f p).choked = p.choked) :
    (s.mapPeer id f).unchoked = s.unchoked := by
  refine unchoked_congr fun id' => ?_
  rw [flag_mapPeer]
  split
  · rename_i heq
    simp only [hf]
    rw [heq]
    rfl
  · rfl

/-- Nothing but a round unchokes anyone. -/
theorem unchoked_apply_le {i : ChokingInput} (hi : ∀ answers, i ≠ .rechoke answers) :
    (s.apply i).unchoked ≤ s.unchoked := by
  cases i with
  | connect id =>
      unfold ChokingTorrent.apply
      dsimp only
      split
      · exact le_rfl
      · have hweight := HashMap.weight_insert (fun _ p => if ChokingPeer.choked p then 0 else 1) s.peers id
          ⟨PeerActor.new id, []⟩
        -- a new peer is choked
        rw [show (if ChokingPeer.choked ⟨PeerActor.new id, []⟩ then 0 else 1) = 0 from rfl, Nat.add_zero]
          at hweight
        exact Nat.le.intro hweight
  | disconnect id =>
      have hweight := HashMap.weight_erase (fun _ p => if ChokingPeer.choked p then 0 else 1) s.peers id
      exact Nat.le.intro hweight
  | setState state =>
      change (s.setState state).unchoked ≤ s.unchoked
      unfold setState
      split
      · have hzero : (s.peers.retain fun _ p => some (p.post true)).weight
            (fun _ p => if ChokingPeer.choked p then 0 else 1) = 0 := by
          rw [HashMap.weight_eq_zero_iff]
          intro id p hp
          rw [HashMap.get?_retain] at hp
          obtain ⟨q, -, hp⟩ := Option.bind_eq_some_iff.1 hp
          cases hp
          rw [ChokingPeer.choked_post]
          rfl
        exact hzero.le.trans (Nat.zero_le _)
      · exact le_rfl
  | hear id interested => exact (unchoked_mapPeer fun p => p.choked_hear interested).le
  | handle id => exact (unchoked_mapPeer fun p => p.choked_next).le
  | rechoke answers => exact absurd rfl (hi answers)

/-- The names are kept, and no more peers are unchoked than there are slots. -/
structure Bounded (s : ChokingTorrent) : Prop where
  named : s.Named
  le : s.unchoked ≤ s.chokingScheduler.uploadSlots

theorem Bounded.rechoke_iff (hs : s.Bounded) {answers : List StatsAnswer}
    (hadmits : s.Admits (.rechoke answers)) :
    (s.rechoke answers).unchoked ≤ s.chokingScheduler.uploadSlots ↔ s.Spares (.rechoke answers) := by
  cases hactive : s.state.isTransferActive with
  | false =>
      have hround : s.rechoke answers = s := if_pos hactive
      rw [hround, Spares, hactive]
      exact ⟨fun _ => (fun h => nomatch h), fun _ => hs.le⟩
  | true =>
      rw [unchoked_rechoke hs.named hadmits hactive, Spares, hactive]
      exact ⟨fun h _ => h, fun h => h rfl⟩

theorem Bounded.apply (hs : s.Bounded) {i : ChokingInput} (hadmits : s.Admits i) (hspares : s.Spares i) :
    (s.apply i).Bounded := by
  obtain ⟨hnamed, hslots⟩ := hs.named.apply i
  refine ⟨hnamed, ?_⟩
  rw [hslots]
  cases i with
  | rechoke answers => exact (hs.rechoke_iff hadmits).2 hspares
  | _ =>
      refine (unchoked_apply_le ?_).trans hs.le
      intro answers h
      cases h

end ChokingTorrent

/-- **No more peers are unchoked than there are upload slots**, in every run whose rounds spare the slots of
the peers that do not answer; and a round that does not unchokes too many. -/
theorem upload_slots_kept {s : ChokingTorrent} (h : chokingSystem.Reach ChokingTorrent.Spares s) :
    s.unchoked ≤ s.chokingScheduler.uploadSlots ∧
      ∀ answers, s.Admits (.rechoke answers) →
        ((s.apply (.rechoke answers)).unchoked ≤ s.chokingScheduler.uploadSlots ↔
          s.Spares (.rechoke answers)) := by
  have hbounded : s.Bounded := by
    refine h.invariant (I := ChokingTorrent.Bounded) ?_ ?_
    · rintro t ⟨uploadSlots, rounds, rfl⟩
      exact ⟨fun id p hp => (nomatch hp), Nat.zero_le _⟩
    · rintro t i u ht hspares ⟨hadmits, rfl⟩
      exact ht.apply hadmits hspares
  exact ⟨hbounded.le, fun answers hadmits => hbounded.rechoke_iff hadmits⟩

namespace Sample

/-- Two peers that are interested in what a torrent with one slot has. -/
def interestedPeers : List ChokingInput :=
  [.setState .seeding, .connect peer, .connect otherPeer, .hear peer true, .hear otherPeer true]

def oneSlot : ChokingTorrent := ⟨∅, .added, .new 1 3⟩

/-- The first peer answers, and the other one does not. -/
def firstRound : ChokingTorrent :=
  (interestedPeers.foldl ChokingTorrent.apply oneSlot).apply (.rechoke [⟨peer, 0, 0⟩])

/-- Then it is the other way around. -/
def secondRound : ChokingTorrent := firstRound.apply (.rechoke [⟨otherPeer, 0, 0⟩])

/-- Everything is handled in the end. -/
def handled : ChokingTorrent := (secondRound.apply (.handle peer)).apply (.handle otherPeer)

theorem reach_firstRound {G : ChokingTorrent → ChokingInput → Prop}
    (hG : ∀ s i, i ∈ interestedPeers → G s i)
    (hround : G (interestedPeers.foldl ChokingTorrent.apply oneSlot) (.rechoke [⟨peer, 0, 0⟩])) :
    chokingSystem.Reach G firstRound := by
  have hstep : ∀ s i, i ∈ interestedPeers → G s i ∧ chokingSystem.step s i (s.apply i) := by
    intro s i hi
    refine ⟨hG s i hi, ?_, rfl⟩
    simp only [interestedPeers, List.mem_cons, List.not_mem_nil, or_false] at hi
    rcases hi with rfl | rfl | rfl | rfl | rfl <;> trivial
  have hconnected : chokingSystem.Reach G (interestedPeers.foldl ChokingTorrent.apply oneSlot) :=
    System.Reach.steps (.init ⟨1, 3, rfl⟩)
      ⟨hstep _ _ (by simp [interestedPeers]), hstep _ _ (by simp [interestedPeers]),
        hstep _ _ (by simp [interestedPeers]), hstep _ _ (by simp [interestedPeers]),
        hstep _ _ (by simp [interestedPeers]), trivial⟩
  exact hconnected.step (i := .rechoke [⟨peer, 0, 0⟩]) hround ⟨⟨by decide, by decide +kernel⟩, rfl⟩

end Sample

theorem upload_slots_kept_sample :
    Sample.firstRound.unchoked = 1 ∧
      Sample.firstRound.unchoked ≤ Sample.firstRound.chokingScheduler.uploadSlots := by
  refine ⟨by decide +kernel, (upload_slots_kept (Sample.reach_firstRound ?_ ?_)).1⟩
  · intro s i hi
    simp only [Sample.interestedPeers, List.mem_cons, List.not_mem_nil, or_false] at hi
    rcases hi with rfl | rfl | rfl | rfl | rfl <;> trivial
  · exact fun _ => by decide +kernel

/-- **A peer that does not answer keeps its slot, and another one gets it too**: two peers are unchoked where
there is one slot, when everything has been handled. -/
theorem silent_peer_keeps_slot :
    chokingSystem.Reach (fun _ _ => True) Sample.handled ∧
      (∀ peer ∈ Sample.handled.peers.toList, peer.2.mailbox = []) ∧
      Sample.handled.chokingScheduler.uploadSlots = 1 ∧ Sample.handled.unchoked = 2 := by
  have hfirst : chokingSystem.Reach (fun _ _ => True) Sample.firstRound :=
    Sample.reach_firstRound (fun _ _ _ => trivial) trivial
  have hsecond : chokingSystem.Reach (fun _ _ => True) Sample.secondRound :=
    hfirst.step (i := .rechoke [⟨Sample.otherPeer, 0, 0⟩]) trivial ⟨⟨by decide, by decide +kernel⟩, rfl⟩
  refine ⟨?_, by decide +kernel⟩
  have hhandle : ∀ s id, chokingSystem.step s (.handle id) (s.apply (.handle id)) := fun _ _ => ⟨trivial, rfl⟩
  exact .step (.step hsecond trivial (hhandle _ Sample.peer)) trivial (hhandle _ Sample.otherPeer)

end Tortillas
