/-
**The blocks of a conversation.**

A block is asked for by a torrent, requested by its actor, served by the other end and handed on to
the torrent, and each of these may happen long after the one before it: a request waits while the
other end chokes and is sent again when that is over, a block may be on its way when its request is
cancelled, and a request is dropped in silence by an end that chokes.  Nothing is said in answer to a
request but the block, so that an actor never learns that a request has been dropped.

What carries the safety of the exchange is the order of the queues: the blocks that are told go
back, one by one and in order, to requests.  What carries its completeness is an invariant about a
single request: as long as it is pending, the request or its block is on its way, or the actor is
choked and will send the request again, or a choke is on its way.  The last two are what dropping a
request comes to, because the views of the two ends agree.

Main definitions:

* `Conversation.Under` — a condition on the steps of a conversation;
* `Honest`, `Serves` — what a torrent answers, and that it answers;
* `Conversation.Exchange` — where the blocks and the requests come from;
* `Conversation.Covers` — a pending request is not lost.

Main results:

* `told_blocks_requested` — **every block told goes back to a request of its own**;
* `no_request_lost` — **when nothing is on its way, every block that has been asked for has come**.
-/

import Tortillas.Conversation

set_option relaxedAutoImplicit false
set_option autoImplicit false

namespace Tortillas

open scoped List

/-! ### Blocks and requests -/

/-- Where a block or a request is: the index of its piece and its offset. -/
abbrev Position := ℕ × ℕ

/-- The block a message carries. -/
def PeerMessages.block? : PeerMessages → Option (Position × Bytes)
  | .piece index offset data => some ((index.toNat, offset.toNat), data)
  | _ => none

/-- The block a message asks for. -/
def PeerMessages.requested? : PeerMessages → Option BlockKey
  | .request index offset length => some (index.toNat, offset.toNat, length.toNat)
  | _ => none

/-- The block a torrent is told. -/
def PeerEvent.block? : PeerEvent → Option (Position × Bytes)
  | .incomingPiece _ index offset block => some ((index, offset), block)
  | _ => none

/-- The block a command asks for. -/
def PeerCommand.asked? : PeerCommand → Option BlockKey
  | .needPiece index start length => some (index, start, length)
  | _ => none

def BlockKey.position (key : BlockKey) : Position := (key.1, key.2.1)

/-- The key of a block. -/
def keyOf (block : Position × Bytes) : BlockKey := (block.1.1, block.1.2, block.2.length)

@[simp] theorem block?_padded (m : PeerMessages) : m.padded.block? = m.block? := by
  cases m <;> rfl

@[simp] theorem requested?_padded (m : PeerMessages) : m.padded.requested? = m.requested? := by
  cases m <;> rfl

@[simp] theorem filterMap_block?_padded (ms : List PeerMessages) :
    (ms.map PeerMessages.padded).filterMap PeerMessages.block? =
      ms.filterMap PeerMessages.block? := by
  simp [List.filterMap_map]

@[simp] theorem filterMap_requested?_padded (ms : List PeerMessages) :
    (ms.map PeerMessages.padded).filterMap PeerMessages.requested? =
      ms.filterMap PeerMessages.requested? := by
  simp [List.filterMap_map]

/-! ### What a step does to them -/

theorem Weighs.said_nil {env : PeerEnv} {a b : PeerActor} {ms : List PeerMessages}
    (h : Weighs env a b ms) :
    ms.filterMap PeerMessages.block? = [] ∧ ms.filterMap PeerMessages.requested? = [] ∧
      b.pendingBlockRequests = a.pendingBlockRequests ∧ b.id = a.id := by
  cases h with
  | unanswered h => exact ⟨rfl, rfl, rfl, rfl⟩
  | @answered interesting h hsent => cases interesting <;> exact ⟨rfl, rfl, rfl, rfl⟩

/-- What one step at one end does to blocks and requests. -/
structure Dealt (p : Party) (i : PartyInput) (t : Turned) : Prop where
  /-- A block that is told has just been heard, and was pending. -/
  told : t.told.filterMap PeerEvent.block? = [] ∨
    ∃ block, t.told.filterMap PeerEvent.block? = [block] ∧
      i.heard.filterMap PeerMessages.block? = [block] ∧ keyOf block ∈ p.actor.pendingBlockRequests
  /-- A block that is served is what the torrent answers to the request that has just been heard. -/
  served : t.said.filterMap PeerMessages.block? = [] ∨
    ∃ index offset length data env, i = .hear (.request index offset length) env ∧
      t.said = [.piece index offset data] ∧ env.requestPiece = some (some data)
  pending : ∀ key ∈ t.party.actor.pendingBlockRequests,
    key ∈ p.actor.pendingBlockRequests ∨ key ∈ i.obeyed.filterMap PeerCommand.asked?
  /-- A request that is sent is pending behind the step. -/
  requested : ∀ m ∈ t.said, m.requested?.isSome →
    ∃ key ∈ t.party.actor.pendingBlockRequests, m = PeerActor.requestMessage key

theorem Dealt.of_obeys {p : Party} {command : PeerCommand} {env : PeerEnv} {a : PeerActor}
    {ms : List PeerMessages} {es : List PeerEvent} (h : Obeys env p.actor.quiet command a ms es) :
    Dealt p (.command command env) ⟨{ p with actor := a }, ms, es⟩ := by
  cases h with
  | rejected h => exact ⟨.inl rfl, .inl rfl, fun key hkey => .inl hkey, by simp⟩
  | @queued index start length h hchoked =>
      refine ⟨.inl rfl, .inl rfl, fun key hkey => ?_, by simp⟩
      rcases Finset.mem_insert.1 hkey with rfl | hkey
      · exact .inr (List.mem_singleton.2 rfl)
      · exact .inl hkey
  | @requested index start length h hchoked =>
      refine ⟨.inl rfl, .inl rfl, fun key hkey => ?_, fun m hm _ => ?_⟩
      · rcases Finset.mem_insert.1 hkey with rfl | hkey
        · exact .inr (List.mem_singleton.2 rfl)
        · exact .inl hkey
      · exact ⟨_, Finset.mem_insert_self .., List.mem_singleton.1 hm⟩
  | notPending h => exact ⟨.inl rfl, .inl rfl, fun key hkey => .inl hkey, by simp⟩
  | cancelled hms =>
      refine ⟨.inl rfl, ?_, fun key hkey => .inl (Finset.mem_of_mem_erase hkey), ?_⟩
      · rcases hms with rfl | rfl <;> exact .inl rfl
      · rcases hms with rfl | rfl <;> simp [PeerMessages.requested?]
  | unchanged h => exact ⟨.inl rfl, .inl rfl, fun key hkey => .inl hkey, by simp⟩
  | @changed choked h =>
      refine ⟨.inl rfl, ?_, fun key hkey => .inl hkey, ?_⟩
      · cases choked <;> exact .inl rfl
      · cases choked <;> simp [PeerMessages.requested?]
  | announces h hms =>
      refine ⟨.inl rfl, ?_, fun key hkey => .inl hkey, ?_⟩
      · rcases hms with rfl | rfl
        · exact .inl rfl
        · rcases h with ⟨piece, -, rfl⟩ | ⟨bits, -, rfl⟩ <;> exact .inl rfl
      · rcases hms with rfl | rfl
        · simp
        · rcases h with ⟨piece, -, rfl⟩ | ⟨bits, -, rfl⟩ <;> simp [PeerMessages.requested?]

theorem flushedRequests_nil (env : PeerEnv) (a : PeerActor) :
    (a.flushedRequests env).filterMap PeerMessages.block? = [] := by
  rw [PeerActor.flushedRequests, List.filterMap_map, List.filterMap_eq_nil_iff]
  intro key _
  rfl

theorem Dealt.of_hears {p : Party} {m : PeerMessages} {env : PeerEnv} {a : PeerActor}
    {ms : List PeerMessages} {es : List PeerEvent} (h : Hears env p.actor.quiet m a ms es) :
    Dealt p (.hear m env) ⟨{ p with actor := a }, ms, es⟩ := by
  cases h with
  | taken h =>
      exact ⟨.inr ⟨_, rfl, rfl, h⟩, .inl rfl, fun key hkey => .inl (Finset.mem_of_mem_erase hkey),
        by simp⟩
  | unchoke =>
      refine ⟨.inl rfl, .inl (flushedRequests_nil _ _), fun key hkey => .inl hkey, fun m hm _ => ?_⟩
      obtain ⟨key, hkey, rfl⟩ := List.mem_map.1 hm
      exact ⟨key, by simpa using (List.mem_filter.1 hkey).2, rfl⟩
  | news h hlt hb =>
      obtain ⟨hblock, hrequest, hpending, -⟩ := hb.said_nil
      refine ⟨.inl rfl, .inl hblock, fun key hkey => .inl (hpending ▸ hkey), fun m hm hsome => ?_⟩
      rw [List.filterMap_eq_nil_iff.1 hrequest m hm] at hsome
      cases hsome
  | pieces hb =>
      obtain ⟨hblock, hrequest, hpending, -⟩ := hb.said_nil
      refine ⟨.inl rfl, .inl hblock, fun key hkey => .inl (hpending ▸ hkey), fun m hm hsome => ?_⟩
      rw [List.filterMap_eq_nil_iff.1 hrequest m hm] at hsome
      cases hsome
  | served h hlength hdata hsent =>
      exact ⟨.inl rfl, .inr ⟨_, _, _, _, _, rfl, rfl, hdata⟩, fun key hkey => .inl hkey,
        by simp [PeerMessages.requested?]⟩
  | cancelled =>
      exact ⟨.inl rfl, .inl rfl, fun key hkey => .inl (Finset.mem_of_mem_erase hkey), by simp⟩
  | _ => exact ⟨.inl rfl, .inl rfl, fun key hkey => .inl hkey, by simp⟩

/-- **What every step at one end does to blocks and requests.** -/
theorem Party.Acts.dealt {p : Party} {i : PartyInput} {t : Turned} (h : p.Acts i t) :
    Dealt p i t := by
  cases h with
  | @starts bitfield ms phase hms =>
      subst hms
      refine ⟨.inl rfl, .inl ?_, fun key hkey => .inl hkey, ?_⟩
      · by_cases hbits : bitfield = [] <;> simp [hbits, PeerMessages.block?]
      · by_cases hbits : bitfield = [] <;> simp [hbits, PeerMessages.requested?]
  | obeys h => exact .of_obeys h
  | hears h => exact .of_hears h
  | panics h hnone => exact ⟨.inl rfl, .inl rfl, fun key hkey => .inl hkey, by simp⟩
  | keepsAlive =>
      exact ⟨.inl rfl, .inl rfl, fun key hkey => .inl hkey, by simp [PeerMessages.requested?]⟩
  | ends hi hes =>
      refine ⟨.inl ?_, .inl rfl, fun key hkey => .inl hkey, by simp⟩
      rcases hes with rfl | rfl <;> rfl

/-! ### Where blocks and requests come from -/

namespace Conversation

/-- The blocks that the torrent of a side has been told, and those it has asked for. -/
def blocksTold (s : Conversation) (side : Side) : List (Position × Bytes) :=
  (s.told side).filterMap PeerEvent.block?

def keysAsked (s : Conversation) (side : Side) : List BlockKey :=
  (s.obeyed side).filterMap PeerCommand.asked?

/-- **Where the blocks and the requests of a side come from.** -/
structure Exchange (s : Conversation) (side : Side) : Prop where
  told : s.blocksTold side <+ (s.heard side).filterMap PeerMessages.block?
  served : ((s.said side).filterMap PeerMessages.block?).map Prod.fst <+
    ((s.heard side).filterMap PeerMessages.requested?).map BlockKey.position
  asked : ∀ block ∈ s.blocksTold side, keyOf block ∈ s.keysAsked side
  pending : ∀ key ∈ (s.party side).actor.pendingBlockRequests, key ∈ s.keysAsked side
  requested : ∀ m ∈ s.said side, m.requested?.isSome →
    ∃ key ∈ s.keysAsked side, m = PeerActor.requestMessage key

section Turned

variable (s : Conversation) (side : Side) (i : PartyInput) (t : Turned)

@[simp] theorem blocksTold_turned_self : (s.turned side i t).blocksTold side =
    s.blocksTold side ++ t.told.filterMap PeerEvent.block? := by
  simp [blocksTold]

@[simp] theorem blocksTold_turned_opposite :
    (s.turned side i t).blocksTold side.opposite = s.blocksTold side.opposite := by
  simp [blocksTold]

@[simp] theorem keysAsked_turned_self : (s.turned side i t).keysAsked side =
    s.keysAsked side ++ i.obeyed.filterMap PeerCommand.asked? := by
  simp [keysAsked]

@[simp] theorem keysAsked_turned_opposite :
    (s.turned side i t).keysAsked side.opposite = s.keysAsked side.opposite := by
  simp [keysAsked]

end Turned

/-- A step of the other side does not touch the exchange of this one. -/
theorem Exchange.opposite {s : Conversation} {side : Side} {i : PartyInput} {t : Turned}
    (h : s.Exchange side.opposite) (hmoves : s.Moves side i t) :
    (s.turned side i t).Exchange side.opposite where
  told := by simpa using h.told
  served := by simpa [hmoves.said_opposite] using h.served
  asked := by simpa using h.asked
  pending := by simpa using h.pending
  requested := by simpa [hmoves.said_opposite] using h.requested

/-- A step of this side adds to both ends of it. -/
theorem Exchange.self {s : Conversation} {side : Side} {i : PartyInput} {t : Turned}
    (h : s.Exchange side) (hdealt : Dealt (s.party side) i t) :
    (s.turned side i t).Exchange side where
  told := by
    rw [blocksTold_turned_self, turned_heard_self, List.filterMap_append]
    refine h.told.append ?_
    rcases hdealt.told with hnil | ⟨block, htold, hheard, -⟩
    · rw [hnil]
      exact List.nil_sublist _
    · rw [htold, hheard]
  served := by
    rw [said_turned_self, turned_heard_self, List.filterMap_append, List.filterMap_append,
      List.map_append, List.map_append, filterMap_block?_padded]
    refine h.served.append ?_
    rcases hdealt.served with hnil | ⟨index, offset, length, data, env, rfl, hsaid, -⟩
    · rw [hnil]
      exact List.nil_sublist _
    · rw [hsaid]
      exact List.Sublist.refl _
  asked := by
    intro block hblock
    rw [blocksTold_turned_self] at hblock
    rw [keysAsked_turned_self]
    refine List.mem_append_left _ ?_
    rcases List.mem_append.1 hblock with hblock | hblock
    · exact h.asked block hblock
    · rcases hdealt.told with hnil | ⟨block', htold, -, hpending⟩
      · rw [hnil] at hblock
        cases hblock
      · rw [htold] at hblock
        rw [List.mem_singleton.1 hblock]
        exact h.pending _ hpending
  pending := by
    intro key hkey
    rw [turned_party_self] at hkey
    rw [keysAsked_turned_self]
    rcases hdealt.pending key hkey with hkey | hkey
    · exact List.mem_append_left _ (h.pending key hkey)
    · exact List.mem_append_right _ hkey
  requested := by
    intro m hm hsome
    rw [said_turned_self] at hm
    rw [keysAsked_turned_self]
    rcases List.mem_append.1 hm with hm | hm
    · obtain ⟨key, hkey, hrequest⟩ := h.requested m hm hsome
      exact ⟨key, List.mem_append_left _ hkey, hrequest⟩
    · obtain ⟨m', hm', rfl⟩ := List.mem_map.1 hm
      rw [requested?_padded] at hsome
      obtain ⟨key, hkey, rfl⟩ := hdealt.requested m' hm' hsome
      refine ⟨key, ?_, rfl⟩
      rcases hdealt.pending key hkey with hkey | hkey
      · exact List.mem_append_left _ (h.pending key hkey)
      · exact List.mem_append_right _ hkey

variable {id : Side → PeerId} {G : Conversation → Side × SideInput → Prop}

theorem exchange_of_reach {s : Conversation} (h : (conversationSystem id).Reach G s) (side : Side) :
    s.Exchange side := by
  revert side
  refine h.strengthen (I := fun s => ∀ side, s.Exchange side) (fun s hs => plain_of_reach hs) ?_ ?_
  · rintro s rfl side
    refine ⟨List.Sublist.refl _, List.Sublist.refl _, ?_, ?_, ?_⟩
    · intro block hblock
      cases hblock
    · intro key hkey
      exact absurd hkey (Finset.notMem_empty key)
    · intro m hm
      simp [said] at hm
  · rintro s ⟨side, input⟩ u hplain hs - hstep other
    obtain ⟨i, t, -, hmoves, rfl⟩ := moves_of_step hstep
    rcases side.eq_or_eq_opposite other with rfl | rfl
    · exact (hs other).self (hmoves.acts hplain).dealt
    · exact (hs side.opposite).opposite hmoves

/-- What has been heard is the front of what has been said. -/
theorem heard_prefix_said (s : Conversation) (side : Side) :
    s.heard side <+: s.said side.opposite := by
  rw [said, Side.opposite_opposite]
  exact List.prefix_append _ _

end Conversation

/-! ### What the torrents answer -/

/-- A condition on the steps of a conversation: on the side, the party before the step and what
happens to it. -/
def Conversation.Under (C : Side → Party → PartyInput → Prop) (s : Conversation) (i : Side × SideInput) :
    Prop :=
  ∀ j ∈ i.2.partyInput (s.wire i.1.opposite).head?, C i.1 (s.party i.1) j

/-- What a torrent answers to a request, if it answers, is such. -/
def Answers (P : Side → BlockKey → Bytes → Prop) (side : Side) (_ : Party) : PartyInput → Prop
  | .hear m env => ∀ key ∈ m.requested?, ∀ data, env.requestPiece = some (some data) → P side key data
  | _ => True

/-- A torrent answers a request with what it holds, if it answers. -/
def Honest (content : Side → BlockKey → Bytes) : Side → Party → PartyInput → Prop :=
  Answers fun side key data => data = content side key

/-- A block the wire has a form for, and that is served. -/
def BlockKey.Fits (key : BlockKey) : Prop :=
  key.1 < 2 ^ 32 ∧ key.2.1 < 2 ^ 32 ∧ 0 < key.2.2 ∧ key.2.2 ≤ blockSize

instance : DecidablePred BlockKey.Fits := fun key =>
  inferInstanceAs (Decidable (key.1 < 2 ^ 32 ∧ key.2.1 < 2 ^ 32 ∧ 0 < key.2.2 ∧ key.2.2 ≤ blockSize))

/-- Everything that is sent goes out, a torrent asks for blocks that can be served, and answers
every request. -/
def Serves (content : Side → BlockKey → Bytes) (side : Side) (p : Party) : PartyInput → Prop
  | .command command env => env.sent = true ∧ ∀ key ∈ command.asked?, key.Fits
  | .hear m env => env.sent = true ∧ (∀ key ∈ p.actor.pendingBlockRequests, key ∈ env.flushed) ∧
      ∀ key ∈ m.requested?, env.requestPiece = some (some (content side key))
  | _ => True

theorem Serves.honest {content : Side → BlockKey → Bytes} {side : Side} {p : Party} {i : PartyInput}
    (h : Serves content side p i) : Honest content side p i := by
  cases i with
  | hear m env =>
      intro key hkey data hdata
      have hserved := h.2.2 key hkey
      rw [hdata] at hserved
      simpa using hserved
  | _ => trivial

section Answers

variable {P : Side → BlockKey → Bytes → Prop}

/-- What an end serves is what its torrent has answered. -/
theorem Dealt.answers {p : Party} {i : PartyInput} {t : Turned} {side : Side} (h : Dealt p i t)
    (hanswers : Answers P side p i) :
    ∀ block ∈ t.said.filterMap PeerMessages.block?, ∃ key, key.position = block.1 ∧ P side key block.2 := by
  intro block hblock
  rcases h.served with hnil | ⟨index, offset, length, data, env, rfl, hsaid, henv⟩
  · rw [hnil] at hblock
    cases hblock
  · rw [hsaid] at hblock
    obtain rfl := List.mem_singleton.1 hblock
    exact ⟨(index.toNat, offset.toNat, length.toNat), rfl, hanswers _ rfl data henv⟩

variable {id : Side → PeerId}

/-- Every block that has been served is what the torrent has answered. -/
theorem answers_of_reach {s : Conversation}
    (h : (conversationSystem id).Reach (Conversation.Under (Answers P)) s) (side : Side) :
    ∀ block ∈ (s.said side).filterMap PeerMessages.block?,
      ∃ key, key.position = block.1 ∧ P side key block.2 := by
  revert side
  refine h.strengthen
    (I := fun s => ∀ side, ∀ block ∈ (s.said side).filterMap PeerMessages.block?,
      ∃ key, key.position = block.1 ∧ P side key block.2) (fun s hs => Conversation.plain_of_reach hs) ?_ ?_
  · rintro s rfl side block hblock
    simp [Conversation.said] at hblock
  · rintro s ⟨side, input⟩ u hplain hs hanswers hstep other block hblock
    obtain ⟨i, t, hi, hmoves, rfl⟩ := Conversation.moves_of_step hstep
    rcases side.eq_or_eq_opposite other with rfl | rfl
    · rw [Conversation.said_turned_self, List.filterMap_append, filterMap_block?_padded] at hblock
      rcases List.mem_append.1 hblock with hblock | hblock
      · exact hs other block hblock
      · exact (hmoves.acts hplain).dealt.answers (hanswers i hi) block hblock
    · rw [hmoves.said_opposite] at hblock
      exact hs side.opposite block hblock

/-- And so is every block that the other torrent is told. -/
theorem Conversation.answers_of_told {s : Conversation}
    (h : (conversationSystem id).Reach (Under (Answers P)) s) (side : Side) :
    ∀ block ∈ s.blocksTold side, ∃ key, key.position = block.1 ∧ P side.opposite key block.2 := by
  intro block hblock
  have hexchange := exchange_of_reach h side
  refine answers_of_reach h side.opposite block ?_
  exact ((s.heard_prefix_said side).sublist.filterMap _).subset (hexchange.told.subset hblock)

end Answers

/-! ### No request is lost -/

theorem View.foldl_choking {v : View} {ms : List PeerMessages}
    (h : (ms.foldl View.hear v).choking = true) : v.choking = true ∨ .choke ∈ ms := by
  induction ms generalizing v with
  | nil => exact .inl h
  | cons m ms ih =>
      rcases ih h with hv | hmem
      · cases m with
        | choke => exact .inr (List.mem_cons_self ..)
        | unchoke => cases hv
        | _ => exact .inl hv
      · exact .inr (List.mem_cons_of_mem _ hmem)

/-- Why a request that is pending is not lost: it is on its way, or its block is, or the actor sends
it again when it is no longer choked. -/
def Conversation.Covers (s : Conversation) (side : Side) (key : BlockKey) : Prop :=
  PeerActor.requestMessage key ∈ s.wire side ∨
    (∃ m ∈ s.wire side.opposite, ∃ block, m.block? = some block ∧ keyOf block = key) ∨
    (s.party side).actor.peerChoking = true ∨ .choke ∈ s.wire side.opposite

theorem ne_choke_of_asksTorrent {m : PeerMessages} (h : m.asksTorrent = true) :
    m ≠ .choke ∧ m.block? = none := by
  cases m with
  | «have» index => exact ⟨by simp, rfl⟩
  | bitfield bits => exact ⟨by simp, rfl⟩
  | request index offset length => exact ⟨by simp, rfl⟩
  | _ => cases h

/-- A request that is pending behind a step has been sent in it, or waits while the actor is choked,
or has been pending before; then what has been heard was neither its block nor a choke. -/
theorem Party.Acts.covers {content : Side → BlockKey → Bytes} {side : Side} {p : Party}
    {i : PartyInput} {t : Turned} (h : p.Acts i t) (hserves : Serves content side p i) :
    ∀ key ∈ t.party.actor.pendingBlockRequests,
      PeerActor.requestMessage key ∈ t.said ∨ t.party.actor.peerChoking = true ∨
        (key ∈ p.actor.pendingBlockRequests ∧ p.actor.peerChoking = false ∧
          ∀ m ∈ i.heard, m ≠ .choke ∧ ∀ block, m.block? = some block → keyOf block ≠ key) := by
  intro key hkey
  by_cases hchoked : t.party.actor.peerChoking = true
  · exact .inr (.inl hchoked)
  rw [Bool.not_eq_true] at hchoked
  have hsame : t.party.actor.pendingBlockRequests = p.actor.pendingBlockRequests →
      t.party.actor.peerChoking = p.actor.peerChoking →
      (∀ m ∈ i.heard, m ≠ .choke ∧ m.block? = none) →
        PeerActor.requestMessage key ∈ t.said ∨ t.party.actor.peerChoking = true ∨
        (key ∈ p.actor.pendingBlockRequests ∧ p.actor.peerChoking = false ∧
          ∀ m ∈ i.heard, m ≠ .choke ∧ ∀ block, m.block? = some block → keyOf block ≠ key) := by
    intro hpending hpeer hheard
    refine .inr (.inr ⟨hpending ▸ hkey, hpeer ▸ hchoked, fun m hm => ⟨(hheard m hm).1, ?_⟩⟩)
    intro block hblock
    rw [(hheard m hm).2] at hblock
    cases hblock
  cases h with
  | starts hms => exact hsame rfl rfl (by simp [PartyInput.heard])
  | keepsAlive => exact hsame rfl rfl (by simp [PartyInput.heard])
  | ends hi hes =>
      refine hsame rfl rfl ?_
      rcases hi with rfl | rfl | rfl <;> simp [PartyInput.heard]
  | @panics m env h hnone =>
      refine hsame rfl rfl fun m' hm => ?_
      rw [List.mem_singleton.1 hm]
      exact ne_choke_of_asksTorrent h
  | obeys h =>
      cases h with
      | queued h hchoking => exact absurd hchoking (by simpa using hchoked)
      | requested h hchoking =>
          rcases Finset.mem_insert.1 hkey with rfl | hkey
          · exact .inl (List.mem_singleton.2 rfl)
          · exact .inr (.inr ⟨hkey, hchoking, by simp [PartyInput.heard]⟩)
      | cancelled hms =>
          exact .inr (.inr ⟨Finset.mem_of_mem_erase hkey, hchoked, by simp [PartyInput.heard]⟩)
      | _ => exact hsame rfl rfl (by simp [PartyInput.heard])
  | hears h =>
      cases h with
      | taken h =>
          refine .inr (.inr ⟨Finset.mem_of_mem_erase hkey, hchoked, fun m hm => ?_⟩)
          obtain rfl := List.mem_singleton.1 hm
          refine ⟨by simp, fun block hblock heq => ?_⟩
          cases hblock
          exact (Finset.mem_erase.1 hkey).1 heq.symm
      | unwanted h =>
          refine .inr (.inr ⟨hkey, hchoked, fun m hm => ?_⟩)
          obtain rfl := List.mem_singleton.1 hm
          refine ⟨by simp, fun block hblock heq => ?_⟩
          cases hblock
          subst heq
          exact h hkey
      | choke => cases hchoked
      | unchoke =>
          refine .inl (List.mem_map.2 ⟨key, List.mem_filter.2 ⟨hserves.2.1 key hkey, ?_⟩, rfl⟩)
          simpa using hkey
      | news h hlt hb =>
          have hpeer := congrArg View.choking hb.stance.2
          exact hsame hb.said_nil.2.2.1 hpeer (by simp [PartyInput.heard, PeerMessages.block?])
      | pieces hb =>
          have hpeer := congrArg View.choking hb.stance.2
          exact hsame hb.said_nil.2.2.1 hpeer (by simp [PartyInput.heard, PeerMessages.block?])
      | cancelled =>
          refine .inr (.inr ⟨Finset.mem_of_mem_erase hkey, hchoked, ?_⟩)
          simp [PartyInput.heard, PeerMessages.block?]
      | _ => exact hsame rfl rfl (by simp [PartyInput.heard, PeerMessages.block?])

/-- A request that fits is answered by an end that does not choke. -/
theorem Party.Acts.answers {content : Side → BlockKey → Bytes}
    (hcontent : ∀ side key, (content side key).length = key.2.2) {side : Side} {p : Party}
    {i : PartyInput} {t : Turned} (h : p.Acts i t) (hserves : Serves content side p i) {key : BlockKey}
    (hkey : key.Fits) (hheard : i.heard = [PeerActor.requestMessage key]) :
    p.actor.amChoking = true ∨
      ∃ m ∈ t.said, ∃ block, m.block? = some block ∧ keyOf block = key := by
  obtain ⟨index, start, length⟩ := key
  obtain ⟨hindex, hstart, hpos, hle⟩ := hkey
  simp only at hindex hstart hpos hle
  have hlength : length < 2 ^ 32 := lt_of_le_of_lt hle (by decide)
  have htoNat : ∀ n < 2 ^ 32, (UInt32.ofNat n).toNat = n := fun n hn => UInt32.toNat_ofNat_of_lt' hn
  cases h with
  | hears h =>
      obtain rfl := List.singleton_injective hheard
      have hdata := hserves.2.2 _ rfl
      rw [htoNat index hindex, htoNat start hstart, htoNat length hlength] at hdata
      cases h with
      | choked h => exact .inl h
      | invalid h =>
          rw [htoNat length hlength] at h
          rcases h with h | h
          · have hzero := congrArg UInt32.toNat h
            rw [htoNat length hlength] at hzero
            simp at hzero
            omega
          · omega
      | refused h =>
          rw [hdata] at h
          cases h
      | served h hbounds hblock hsent =>
          rw [hdata] at hblock
          cases hblock
          refine .inr ⟨_, List.mem_singleton.2 rfl, _, rfl, ?_⟩
          simp only [keyOf, htoNat index hindex, htoNat start hstart, hcontent]
  | @panics m env h hnone =>
      obtain rfl := List.singleton_injective hheard
      have hdata := hserves.2.2 _ rfl
      simp [PeerActor.requestMessage, PeerActor.handle, hdata, hserves.1] at hnone
      split at hnone
      · cases hnone
      · split at hnone <;> cases hnone
  | obeys h => cases hheard
  | starts hms => cases hheard
  | keepsAlive => cases hheard
  | ends hi hes => rcases hi with rfl | rfl | rfl <;> cases hheard

namespace Conversation

/-- What is not heard stays on its way. -/
theorem Moves.mem_wire_opposite {s : Conversation} {side : Side} {i : PartyInput} {t : Turned}
    (h : s.Moves side i t) {m : PeerMessages} (hm : m ∈ s.wire side.opposite)
    (hne : i.heard ≠ [m.padded]) : m ∈ (s.turned side i t).wire side.opposite := by
  rw [turned_wire_opposite]
  rcases h.next with hnone | ⟨m', rest, hwire, hheard⟩
  · simpa [hnone] using hm
  · rw [hwire] at hm ⊢
    rcases List.mem_cons.1 hm with rfl | hm
    · exact absurd hheard hne
    · simpa [hheard] using hm

variable {content : Side → BlockKey → Bytes}
  (hcontent : ∀ side key, (content side key).length = key.2.2)

/-- A step of a side keeps its own requests covered. -/
theorem Covers.self {s : Conversation} {side : Side} {i : PartyInput} {t : Turned}
    (h : ∀ key ∈ (s.party side).actor.pendingBlockRequests, s.Covers side key)
    (hmoves : s.Moves side i t) (hacts : (s.party side).Acts i t)
    (hserves : Serves content side (s.party side) i) :
    ∀ key ∈ t.party.actor.pendingBlockRequests, (s.turned side i t).Covers side key := by
  intro key hkey
  unfold Covers
  rw [turned_wire_self, turned_party_self]
  rcases hacts.covers hserves key hkey with hsaid | hchoked | ⟨hpending, hopen, hheard⟩
  · exact .inl (List.mem_append_right _ hsaid)
  · exact .inr (.inr (.inl hchoked))
  rcases h key hpending with hrequest | ⟨m, hm, block, hblock, hkeyOf⟩ | hchoked | hchoke
  · exact .inl (List.mem_append_left _ hrequest)
  · refine .inr (.inl ⟨m, hmoves.mem_wire_opposite hm ?_, block, hblock, hkeyOf⟩)
    intro heq
    exact (hheard m.padded (heq ▸ List.mem_singleton.2 rfl)).2 block (by simpa using hblock) hkeyOf
  · rw [hopen] at hchoked
    cases hchoked
  · refine .inr (.inr (.inr (hmoves.mem_wire_opposite hchoke ?_)))
    intro heq
    exact (hheard _ (heq ▸ List.mem_singleton.2 rfl)).1 rfl

include hcontent in
/-- It keeps the requests of the other side covered: one that it drops, it drops because it chokes,
and of that the other side knows or will hear. -/
theorem Covers.opposite {s : Conversation} {side : Side} {i : PartyInput} {t : Turned} {key : BlockKey}
    (h : s.Covers side.opposite key) (hmoves : s.Moves side i t) (hacts : (s.party side).Acts i t)
    (hserves : Serves content side (s.party side) i) (hkey : key.Fits) (hviews : s.ViewsAgree) :
    (s.turned side i t).Covers side.opposite key := by
  unfold Covers at h ⊢
  rw [Side.opposite_opposite] at h ⊢
  rw [turned_wire_self, turned_party_opposite]
  rcases h with hrequest | ⟨m, hm, block⟩ | hchoked | hchoke
  · by_cases hheard : i.heard = [(PeerActor.requestMessage key).padded]
    · rcases hacts.answers hcontent hserves hkey hheard with hchoking | ⟨m, hm, block⟩
      · have hview := congrArg View.choking (hviews side)
        rcases View.foldl_choking (hview.trans hchoking) with hchoked | hchoke
        · exact .inr (.inr (.inl hchoked))
        · exact .inr (.inr (.inr (List.mem_append_left _ hchoke)))
      · exact .inr (.inl ⟨m, List.mem_append_right _ hm, block⟩)
    · exact .inl (hmoves.mem_wire_opposite hrequest hheard)
  · exact .inr (.inl ⟨m, List.mem_append_left _ hm, block⟩)
  · exact .inr (.inr (.inl hchoked))
  · exact .inr (.inr (.inr (List.mem_append_left _ hchoke)))

variable {id : Side → PeerId}

/-- A torrent that asks for blocks that can be served has asked for no others. -/
theorem fits_of_reach {s : Conversation}
    (h : (conversationSystem id).Reach (Under (Serves content)) s) (side : Side) :
    ∀ key ∈ s.keysAsked side, key.Fits := by
  revert side
  refine h.invariant (I := fun s => ∀ side, ∀ key ∈ s.keysAsked side, key.Fits) ?_ ?_
  · rintro s rfl side key hkey
    cases hkey
  · rintro s ⟨side, input⟩ u hs hserves hstep other key hkey
    obtain ⟨i, t, hi, hmoves, rfl⟩ := moves_of_step hstep
    rcases side.eq_or_eq_opposite other with rfl | rfl
    · rw [keysAsked_turned_self] at hkey
      rcases List.mem_append.1 hkey with hkey | hkey
      · exact hs other key hkey
      · have hnow := hserves i hi
        cases i with
        | command command env =>
            obtain ⟨command', hcommand, hasked⟩ := List.mem_filterMap.1 hkey
            obtain rfl := List.mem_singleton.1 hcommand
            exact hnow.2 key hasked
        | _ => cases hkey
    · rw [keysAsked_turned_opposite] at hkey
      exact hs side.opposite key hkey

include hcontent in
/-- **Every pending request is covered**, in every state of every run. -/
theorem covers_of_reach {s : Conversation}
    (h : (conversationSystem id).Reach (Under (Serves content)) s) (side : Side) :
    ∀ key ∈ (s.party side).actor.pendingBlockRequests, s.Covers side key := by
  revert side
  refine h.strengthen
    (I := fun s => ∀ side, ∀ key ∈ (s.party side).actor.pendingBlockRequests, s.Covers side key)
    (J := fun s => (conversationSystem id).Reach (Under (Serves content)) s) (fun s hs => hs) ?_ ?_
  · rintro s rfl side key hkey
    exact absurd hkey (Finset.notMem_empty key)
  · rintro s ⟨side, input⟩ u hreach hs hserves hstep other key hkey
    obtain ⟨i, t, hi, hmoves, rfl⟩ := moves_of_step hstep
    have hacts := hmoves.acts (plain_of_reach hreach)
    rcases side.eq_or_eq_opposite other with rfl | rfl
    · rw [turned_party_self] at hkey
      exact Covers.self (hs other) hmoves hacts (hserves i hi) key hkey
    · rw [turned_party_opposite] at hkey
      have hfits := fits_of_reach hreach side.opposite key
        ((exchange_of_reach hreach side.opposite).pending key hkey)
      exact (hs side.opposite key hkey).opposite hcontent hmoves hacts (hserves i hi) hfits
        (viewsAgree_of_reach hreach)

end Conversation

/-! ### What becomes of a request -/

/-- The request a command or a message takes back. -/
def PeerCommand.cancelled? : PeerCommand → Option BlockKey
  | .cancelPiece index start length => some (index, start, length)
  | _ => none

def PeerMessages.cancelled? : PeerMessages → Option BlockKey
  | .cancel index offset length => some (index.toNat, offset.toNat, length.toNat)
  | _ => none

/-- **What becomes of a block that is asked for**: it is pending, or has been told, or its request
has been rejected by the actor, or taken back by a command or by a message of the other end. -/
inductive Settled (key : BlockKey) (pending : Finset BlockKey) (told : List PeerEvent)
    (obeyed : List PeerCommand) (heard : List PeerMessages) : Prop
  | pending (h : key ∈ pending)
  | told {block : Position × Bytes} (h : block ∈ told.filterMap PeerEvent.block?)
      (hkey : keyOf block = key)
  | rejected {id : PeerId} (h : .peerRejectedRequest id key.1 key.2.1 ∈ told)
  | cancelled (h : key ∈ obeyed.filterMap PeerCommand.cancelled?)
  | withdrawn (h : key ∈ heard.filterMap PeerMessages.cancelled?)

/-- While more is told, obeyed and heard, only a request that is pending has to be looked at. -/
theorem Settled.append {key : BlockKey} {pending pending' : Finset BlockKey}
    {told told' : List PeerEvent} {obeyed obeyed' : List PeerCommand}
    {heard heard' : List PeerMessages} (h : Settled key pending told obeyed heard)
    (hnext : key ∈ pending → Settled key pending' told' obeyed' heard') :
    Settled key pending' (told ++ told') (obeyed ++ obeyed') (heard ++ heard') := by
  cases h with
  | pending h =>
      cases hnext h with
      | pending h => exact .pending h
      | told h hkey => exact .told (by simp [h]) hkey
      | rejected h => exact .rejected (List.mem_append_right _ h)
      | cancelled h => exact .cancelled (by simp [h])
      | withdrawn h => exact .withdrawn (by simp [h])
  | told h hkey => exact .told (by simp [h]) hkey
  | rejected h => exact .rejected (List.mem_append_left _ h)
  | cancelled h => exact .cancelled (by simp [h])
  | withdrawn h => exact .withdrawn (by simp [h])

/-- A request that is pending before a step, or that is asked for in it, is settled by it. -/
theorem Party.Acts.settles {p : Party} {i : PartyInput} {t : Turned} (h : p.Acts i t) {key : BlockKey}
    (hkey : key ∈ p.actor.pendingBlockRequests ∨ key ∈ i.obeyed.filterMap PeerCommand.asked?) :
    Settled key t.party.actor.pendingBlockRequests t.told i.obeyed i.heard := by
  have hsame : i.obeyed.filterMap PeerCommand.asked? = [] →
      t.party.actor.pendingBlockRequests = p.actor.pendingBlockRequests →
        Settled key t.party.actor.pendingBlockRequests t.told i.obeyed i.heard := by
    intro hnone hpending
    rw [hnone] at hkey
    exact .pending (hpending ▸ hkey.resolve_right List.not_mem_nil)
  cases h with
  | obeys h =>
      cases h with
      | rejected h =>
          rcases hkey with hkey | hkey
          · exact .pending hkey
          · obtain rfl := List.mem_singleton.1 hkey
            exact .rejected (List.mem_singleton.2 rfl)
      | queued h hchoked =>
          rcases hkey with hkey | hkey
          · exact .pending (Finset.mem_insert_of_mem hkey)
          · obtain rfl := List.mem_singleton.1 hkey
            exact .pending (Finset.mem_insert_self ..)
      | requested h hchoked =>
          rcases hkey with hkey | hkey
          · exact .pending (Finset.mem_insert_of_mem hkey)
          · obtain rfl := List.mem_singleton.1 hkey
            exact .pending (Finset.mem_insert_self ..)
      | @cancelled index start length ms hms =>
          by_cases hthis : key = (index, start, length)
          · exact .cancelled (List.mem_singleton.2 hthis)
          · exact .pending (Finset.mem_erase.2 ⟨hthis, hkey.resolve_right List.not_mem_nil⟩)
      | announces h hms =>
          rcases h with ⟨piece, rfl, -⟩ | ⟨bits, rfl, -⟩ <;> exact hsame rfl rfl
      | _ => exact hsame rfl rfl
  | hears h =>
      cases h with
      | @taken index offset data h =>
          by_cases hthis : key = (index.toNat, offset.toNat, data.length)
          · exact .told (List.mem_singleton.2 rfl) hthis.symm
          · exact .pending (Finset.mem_erase.2 ⟨hthis, hkey.resolve_right List.not_mem_nil⟩)
      | @cancelled index offset length =>
          by_cases hthis : key = (index.toNat, offset.toNat, length.toNat)
          · exact .withdrawn (List.mem_singleton.2 hthis)
          · exact .pending (Finset.mem_erase.2 ⟨hthis, hkey.resolve_right List.not_mem_nil⟩)
      | news h hlt hb => exact hsame rfl hb.said_nil.2.2.1
      | pieces hb => exact hsame rfl hb.said_nil.2.2.1
      | _ => exact hsame rfl rfl
  | ends hi hes => rcases hi with rfl | rfl | rfl <;> exact hsame rfl rfl
  | _ => exact hsame rfl rfl

namespace Conversation

variable {id : Side → PeerId} {G : Conversation → Side × SideInput → Prop}

/-- **Every block that has been asked for is settled**, in every state of every run. -/
theorem settled_of_reach {s : Conversation} (h : (conversationSystem id).Reach G s) (side : Side) :
    ∀ key ∈ s.keysAsked side, Settled key (s.party side).actor.pendingBlockRequests (s.told side)
      (s.obeyed side) (s.heard side) := by
  revert side
  refine h.strengthen (J := Plain)
    (I := fun s => ∀ side, ∀ key ∈ s.keysAsked side, Settled key
      (s.party side).actor.pendingBlockRequests (s.told side) (s.obeyed side) (s.heard side))
    (fun s hs => plain_of_reach hs) ?_ ?_
  · rintro s rfl side key hkey
    cases hkey
  · rintro s ⟨side, input⟩ u hplain hs - hstep other key hkey
    obtain ⟨i, t, -, hmoves, rfl⟩ := moves_of_step hstep
    have hacts := hmoves.acts hplain
    rcases side.eq_or_eq_opposite other with rfl | rfl
    · rw [keysAsked_turned_self] at hkey
      rw [turned_party_self, turned_told_self, turned_obeyed_self, turned_heard_self]
      rcases List.mem_append.1 hkey with hkey | hkey
      · exact (hs other key hkey).append fun hpending => hacts.settles (.inl hpending)
      · -- what is asked for in this step is settled by what happens in it
        have hnow := hacts.settles (.inr hkey)
        have hasked : Settled key {key} (s.told other) (s.obeyed other) (s.heard other) :=
          .pending (Finset.mem_singleton_self key)
        exact hasked.append fun _ => hnow
    · rw [keysAsked_turned_opposite] at hkey
      rw [turned_party_opposite, turned_told_opposite, turned_obeyed_opposite,
        turned_heard_opposite]
      exact hs side.opposite key hkey

end Conversation

/-! ### A conversation about one byte -/

instance (content : Side → BlockKey → Bytes) (side : Side) (p : Party) :
    DecidablePred (Serves content side p)
  | .command command env =>
      inferInstanceAs (Decidable (env.sent = true ∧ ∀ key ∈ command.asked?, key.Fits))
  | .hear m env =>
      inferInstanceAs (Decidable (env.sent = true ∧
        (∀ key ∈ p.actor.pendingBlockRequests, key ∈ env.flushed) ∧
        ∀ key ∈ m.requested?, env.requestPiece = some (some (content side key))))
  | .start _ => inferInstanceAs (Decidable True)
  | .startFailed => inferInstanceAs (Decidable True)
  | .keepAlive => inferInstanceAs (Decidable True)
  | .timeout => inferInstanceAs (Decidable True)
  | .stop => inferInstanceAs (Decidable True)

instance (content : Side → BlockKey → Bytes) (s : Conversation) (i : Side × SideInput) :
    Decidable (Conversation.Under (Serves content) s i) :=
  Option.decidableForallMem (i.2.partyInput (s.wire i.1.opposite).head?)

namespace Sample

/-- Both torrents hold nothing but sevens. -/
def sevens (_ : Side) (key : BlockKey) : Bytes := List.replicate key.2.2 7

/-- What an actor learns in a conversation in which one byte is asked for and given. -/
def givingEnv : PeerEnv := ⟨true, [(0, 0, 1)], some true, some false, some (some [7])⟩

/-- The left end asks for a byte while it is choked; it is unchoked, sends its request and gets the
byte. -/
def oneByte : List (Side × SideInput) :=
  [(.left, .start []), (.right, .start [true]), (.left, .receive givingEnv),
    (.left, .command (.needPiece 0 0 1) givingEnv), (.right, .receive givingEnv),
    (.right, .command (.setChoked false) givingEnv), (.left, .receive givingEnv),
    (.right, .receive givingEnv), (.left, .receive givingEnv)]

/-- The byte has come, and nothing is on its way. -/
def byteHasCome (s : Conversation) : Bool :=
  (s.wire .left).isEmpty && (s.wire .right).isEmpty && !(s.party .right).actor.amChoking &&
    decide (s.blocksTold .left = [((0, 0), [7])]) && decide (s.keysAsked .left = [(0, 0, 1)])

theorem exists_byteHasCome :
    ∃ s, (conversationSystem fun _ => .ofId announced).Reach (Conversation.Under (Serves sevens)) s ∧
      byteHasCome s = true :=
  System.Reach.exists_guarded (f := fun s i => s.step i.1 i.2) (fun _ _ _ h => h) (.init rfl) oneByte rfl

end Sample

/-! ### The results -/

/-- What an honest torrent has served is what the other one is told. -/
theorem Conversation.blocksTold_eq {content : Side → BlockKey → Bytes}
    (hcontent : ∀ side key, (content side key).length = key.2.2) {id : Side → PeerId}
    {s : Conversation} (h : (conversationSystem id).Reach (Under (Honest content)) s) (side : Side) :
    ∀ block ∈ s.blocksTold side, block.2 = content side.opposite (keyOf block) := by
  intro block hblock
  obtain ⟨key, hposition, hdata⟩ := answers_of_told h side block hblock
  have hkey : key = keyOf block := by
    have hlength : block.2.length = key.2.2 := by rw [hdata, hcontent]
    rw [keyOf, ← hposition, hlength]
    rfl
  rw [← hkey]
  exact hdata

/-- **Every block told goes back to a request of its own**: in every run of two actors, whatever the
torrents command and answer and whatever fails, the blocks that a torrent is told have been asked for
by it, piece, offset and length; and in order and one by one they stand for requests its actor has
sent, each of which is for a block the torrent has asked for.  So no block is told more often than it
has been requested.  Where the torrents answer requests with what they hold, a block that is told is
what the torrent of the other end holds. -/
theorem told_blocks_requested (id : Side → PeerId) (s : Conversation)
    (h : (conversationSystem id).Reach (fun _ _ => True) s) (side : Side) :
    (∀ block ∈ s.blocksTold side, keyOf block ∈ s.keysAsked side) ∧
      (s.blocksTold side).map Prod.fst <+
        ((s.said side).filterMap PeerMessages.requested?).map BlockKey.position ∧
      (∀ m ∈ s.said side, m.requested?.isSome →
        ∃ key ∈ s.keysAsked side, m = PeerActor.requestMessage key) ∧
      ∀ content : Side → BlockKey → Bytes, (∀ side key, (content side key).length = key.2.2) →
        (conversationSystem id).Reach (Conversation.Under (Honest content)) s →
          ∀ block ∈ s.blocksTold side, block.2 = content side.opposite (keyOf block) := by
  have hself := Conversation.exchange_of_reach h side
  have hother := Conversation.exchange_of_reach h side.opposite
  refine ⟨hself.asked, ?_, hself.requested, fun content hcontent hhonest =>
    Conversation.blocksTold_eq hcontent hhonest side⟩
  have hheard := (s.heard_prefix_said side).sublist
  have hback := (s.heard_prefix_said side.opposite).sublist
  rw [Side.opposite_opposite] at hback
  calc (s.blocksTold side).map Prod.fst
      <+ ((s.heard side).filterMap PeerMessages.block?).map Prod.fst := hself.told.map _
    _ <+ ((s.said side.opposite).filterMap PeerMessages.block?).map Prod.fst :=
        (hheard.filterMap _).map _
    _ <+ ((s.heard side.opposite).filterMap PeerMessages.requested?).map BlockKey.position :=
        hother.served
    _ <+ ((s.said side).filterMap PeerMessages.requested?).map BlockKey.position :=
        (hback.filterMap _).map _

/-- The byte of the conversation goes back to its request, and is what the right torrent holds. -/
theorem told_blocks_requested_sample :
    ∃ s, (conversationSystem fun _ => .ofId Sample.announced).Reach (fun _ _ => True) s ∧
      s.blocksTold .left = [((0, 0), [7])] ∧
      (s.blocksTold .left).map Prod.fst <+
        ((s.said .left).filterMap PeerMessages.requested?).map BlockKey.position := by
  obtain ⟨s, hreach, hs⟩ := Sample.exists_byteHasCome
  simp only [Sample.byteHasCome, Bool.and_eq_true, decide_eq_true_eq] at hs
  have hall : (conversationSystem fun _ => .ofId Sample.announced).Reach (fun _ _ => True) s :=
    hreach.mono fun _ _ _ => trivial
  exact ⟨s, hall, hs.1.2, (told_blocks_requested _ s hall .left).2.1⟩

/-- **No request is lost**: between torrents that answer every request for a block that can be served,
over a connection that carries everything that is sent, and with whatever chokes and unchokes in
between: when nothing is on its way to a side or from it and the other end does not choke, every
block its torrent has asked for has been told to it, byte for byte what the other torrent holds,
unless the request has been rejected because the other end does not have the piece, or has been taken
back. -/
theorem no_request_lost (content : Side → BlockKey → Bytes)
    (hcontent : ∀ side key, (content side key).length = key.2.2) (id : Side → PeerId)
    (s : Conversation) (h : (conversationSystem id).Reach (Conversation.Under (Serves content)) s)
    (side : Side) (hquiet : s.wire side = [] ∧ s.wire side.opposite = [])
    (hopen : (s.party side.opposite).actor.amChoking = false) :
    (s.party side).actor.pendingBlockRequests = ∅ ∧
      ∀ key ∈ s.keysAsked side,
        ((key.1, key.2.1), content side.opposite key) ∈ s.blocksTold side ∨
        (∃ id, .peerRejectedRequest id key.1 key.2.1 ∈ s.told side) ∨
        key ∈ (s.obeyed side).filterMap PeerCommand.cancelled? ∨
        key ∈ (s.heard side).filterMap PeerMessages.cancelled? := by
  have hempty : (s.party side).actor.pendingBlockRequests = ∅ := by
    refine Finset.eq_empty_of_forall_notMem fun key hkey => ?_
    have hview := Conversation.viewsAgree_of_reach h side.opposite
    rw [hquiet.2, Side.opposite_opposite] at hview
    have hchoking : (s.party side).actor.peerChoking = false :=
      (congrArg View.choking hview).trans hopen
    rcases Conversation.covers_of_reach hcontent h side key hkey with hmem | ⟨m, hm, -⟩ | hchoked | hmem
    · rw [hquiet.1] at hmem
      cases hmem
    · rw [hquiet.2] at hm
      cases hm
    · rw [hchoking] at hchoked
      cases hchoked
    · rw [hquiet.2] at hmem
      cases hmem
  refine ⟨hempty, fun key hkey => ?_⟩
  cases Conversation.settled_of_reach h side key hkey with
  | pending hpending =>
      rw [hempty] at hpending
      exact absurd hpending (Finset.notMem_empty key)
  | @told block hblock hkeyOf =>
      have hhonest : (conversationSystem id).Reach (Conversation.Under (Honest content)) s :=
        h.mono fun s i hserves j hj => (hserves j hj).honest
      have hdata := Conversation.blocksTold_eq hcontent hhonest side block hblock
      refine .inl ?_
      rw [← hkeyOf, ← hdata]
      exact hblock
  | rejected h => exact .inr (.inl ⟨_, h⟩)
  | cancelled h => exact .inr (.inr (.inl h))
  | withdrawn h => exact .inr (.inr (.inr h))

/-- Nothing is left to be asked for when the byte has come. -/
theorem no_request_lost_sample :
    ∃ s, (conversationSystem fun _ => .ofId Sample.announced).Reach
        (Conversation.Under (Serves Sample.sevens)) s ∧
      s.keysAsked .left = [(0, 0, 1)] ∧ (s.party .left).actor.pendingBlockRequests = ∅ := by
  obtain ⟨s, hreach, hs⟩ := Sample.exists_byteHasCome
  simp only [Sample.byteHasCome, Bool.and_eq_true, List.isEmpty_iff, Bool.not_eq_true',
    decide_eq_true_eq] at hs
  exact ⟨s, hreach, hs.2, (no_request_lost Sample.sevens (fun _ _ => List.length_replicate) _ s hreach
    .left ⟨hs.1.1.1.1, hs.1.1.1.2⟩ hs.1.1.2).1⟩

end Tortillas
